import P4Survey.Lib.Inet
import P4Survey.Sonata.Reduce

/-! # When a Reduce with its threshold is exact

Over a window the register of a key holds the sum of the key, if no other key
has its index and nothing overflows. Sums that grow by one hit the threshold
and then go past it one at a time, which is what the generated code counts on;
sums of a packet field can step over the threshold or stay on it.
-/

namespace P4Survey.Sonata
open Lib

variable {F : Type} [DecidableEq F] {size : F → ℕ}

namespace P4Reduce

variable (hash : List Bool → ℕ) (r : P4Reduce F)

section Window

/-- The register and the reports, the last one first, after the packets of a window. -/
def run (w : List (Packet size)) : Register 32 65536 × List OutHeader :=
  w.foldl (fun s p => (r.next hash s.1 p, (r.report hash s.1 p).toList ++ s.2))
    (.fill 65536 0#32, [])

/-- The sum of a key over a window. -/
def total (k : List ℕ) (w : List (Packet size)) : ℕ :=
  ((w.filter fun p => r.key p = k).map r.summand).sum

/-- The reports of a key. -/
def reportsOf (k : List ℕ) (w : List (Packet size)) : List OutHeader :=
  (r.run hash w).2.filter fun o => o.key = k

/-- No two keys of the window have the same index. -/
def Separate (w : List (Packet size)) : Prop :=
  ∀ p ∈ w, ∀ q ∈ w, r.index hash p = r.index hash q → r.key p = r.key q

theorem run_concat (w : List (Packet size)) (p : Packet size) :
    r.run hash (w ++ [p]) =
      (r.next hash (r.run hash w).1 p,
        (r.report hash (r.run hash w).1 p).toList ++ (r.run hash w).2) := by
  rw [run, List.foldl_append]
  rfl

omit [DecidableEq F] in
theorem total_concat (k : List ℕ) (w : List (Packet size)) (p : Packet size) :
    r.total k (w ++ [p]) = r.total k w + if r.key p = k then r.summand p else 0 := by
  unfold total
  rw [List.filter_append, List.map_append, List.sum_append]
  split_ifs with h
  · simp [h]
  · simp [h]

omit [DecidableEq F] in
/-- Packets with the same key have the same index. -/
theorem index_congr {p q : Packet size} (h : r.key p = r.key q) :
    r.index hash p = r.index hash q := by
  unfold key at h
  rw [List.map_inj_left] at h
  have hbits : (r.keys.flatMap fun fld => bitsOf (fld.width size) (p fld).toNat) =
      r.keys.flatMap fun fld => bitsOf (fld.width size) (q fld).toNat := by
    rw [List.flatMap_def, List.flatMap_def]
    congr 1
    apply List.map_congr_left
    intro fld hfld
    rw [h fld hfld]
  rw [index, index, hbits]

variable {hash r}

omit [DecidableEq F] in
theorem Separate.left {w : List (Packet size)} {p : Packet size} (h : r.Separate hash (w ++ [p])) :
    r.Separate hash w :=
  fun q hq q' hq' => h q (List.mem_append_left _ hq) q' (List.mem_append_left _ hq')

omit [DecidableEq F] in
/-- No sum of the packets before the last one overflows. -/
theorem total_left_lt {w : List (Packet size)} {p : Packet size}
    (hw : ∀ q ∈ w ++ [p], r.total (r.key q) (w ++ [p]) < 2 ^ 32) :
    ∀ q ∈ w, r.total (r.key q) w < 2 ^ 32 := by
  intro q hq
  have hlt := hw q (List.mem_append_left _ hq)
  rw [total_concat] at hlt
  omega

/-- The register of a key holds its sum. -/
theorem run_register {w : List (Packet size)} (hw : ∀ q ∈ w, r.total (r.key q) w < 2 ^ 32)
    {q : Packet size}
    (hq : ∀ p ∈ w, r.index hash p = r.index hash q → r.key p = r.key q) :
    ((r.run hash w).1.read (r.index hash q)).toNat = r.total (r.key q) w := by
  induction w using List.reverseRecOn with
  | nil => simp [run, total]
  | append_singleton w p ih =>
    have hbefore := ih (total_left_lt hw) fun p' hp' => hq p' (List.mem_append_left _ hp')
    rw [run_concat, next_eq, total_concat]
    by_cases hidx : r.index hash p = r.index hash q
    · have hkey := hq p (by simp) hidx
      have hlt := hw p (by simp)
      rw [hkey, total_concat, if_pos hkey] at hlt
      rw [hidx, Register.read_write_self _ (r.index_lt hash q), if_pos hkey, value, hidx, hbefore,
        BitVec.toNat_ofNat]
      omega
    · have hkey : r.key p ≠ r.key q := fun h => hidx (r.index_congr hash h)
      rw [Register.read_write_of_ne _ hidx, if_neg hkey, Nat.add_zero]
      exact hbefore

/-- The value that a packet is compared with is the sum of its key so far. -/
theorem value_eq_total {w : List (Packet size)} {p : Packet size}
    (hw : ∀ q ∈ w ++ [p], r.total (r.key q) (w ++ [p]) < 2 ^ 32)
    (hsep : r.Separate hash (w ++ [p])) :
    r.value hash (r.run hash w).1 p = r.total (r.key p) (w ++ [p]) := by
  have hlt := hw p (by simp)
  have hread : ((r.run hash w).1.read (r.index hash p)).toNat = r.total (r.key p) w := by
    apply run_register (total_left_lt hw)
    intro q hq
    exact hsep q (List.mem_append_left _ hq) p (by simp)
  rw [total_concat, if_pos rfl] at hlt ⊢
  rw [value, hread]
  omega

theorem reportsOf_concat (k : List ℕ) (w : List (Packet size)) (p : Packet size) :
    r.reportsOf hash k (w ++ [p]) =
      (r.report hash (r.run hash w).1 p).toList.filter (fun o => o.key = k) ++
        r.reportsOf hash k w := by
  rw [reportsOf, run_concat, List.filter_append]
  rfl

theorem reportsOf_concat_of_ne {k : List ℕ} {p : Packet size} (h : r.key p ≠ k)
    (w : List (Packet size)) : r.reportsOf hash k (w ++ [p]) = r.reportsOf hash k w := by
  rw [reportsOf_concat, report_eq]
  split_ifs <;> simp [h]

end Window

section Steps

variable {hash r} {w : List (Packet size)} {p : Packet size} {T : ℕ}

/-- What the last packet of a window adds to the reports of its key. -/
theorem reportsOf_last (hw : ∀ q ∈ w ++ [p], r.total (r.key q) (w ++ [p]) < 2 ^ 32)
    (hsep : r.Separate hash (w ++ [p])) (hbound : r.bound p = T) :
    r.reportsOf hash (r.key p) (w ++ [p]) =
      (if r.total (r.key p) (w ++ [p]) = T then
        [⟨r.key p, if r.readRegister then r.index hash p else T % 2 ^ 16⟩]
      else if r.readRegister = false ∧ r.total (r.key p) (w ++ [p]) > T then [⟨r.key p, 1⟩]
      else []) ++ r.reportsOf hash (r.key p) w := by
  rw [reportsOf_concat, report_eq, value_eq_total hw hsep, hbound]
  congr 1
  split_ifs with heq
  all_goals simp_all

/-- The reports of a key whose sum has grown by one at a time. -/
def steadyReports (hash : List Bool → ℕ) (r : P4Reduce F) (q : Packet size) (T n : ℕ) :
    List OutHeader :=
  if n < T then []
  else if r.readRegister then [⟨r.key q, r.index hash q⟩]
  else List.replicate (n - T) ⟨r.key q, 1⟩ ++ [⟨r.key q, T % 2 ^ 16⟩]

theorem reportsOf_steady (hw : ∀ q ∈ w, r.total (r.key q) w < 2 ^ 32) (hsep : r.Separate hash w)
    (hone : ∀ p ∈ w, r.summand p = 1) (hbound : ∀ p ∈ w, r.bound p = T) (hT : 1 ≤ T)
    (q : Packet size) :
    r.reportsOf hash (r.key q) w = steadyReports hash r q T (r.total (r.key q) w) := by
  induction w using List.reverseRecOn with
  | nil =>
    rw [steadyReports, if_pos (show r.total (r.key q) ([] : List (Packet size)) < T from hT)]
    rfl
  | append_singleton w p ih =>
    have hbefore := ih (total_left_lt hw) hsep.left
      (fun p hp => hone p (List.mem_append_left _ hp))
      (fun p hp => hbound p (List.mem_append_left _ hp))
    by_cases hkey : r.key p = r.key q
    · have hlast := reportsOf_last hw hsep (hbound p (by simp))
      have hidx := r.index_congr hash hkey
      rw [hkey, total_concat, if_pos hkey, hone p (by simp), hbefore, hidx] at hlast
      rw [hlast, total_concat, if_pos hkey, hone p (by simp)]
      generalize r.total (r.key q) w = n
      unfold steadyReports
      rcases Nat.lt_trichotomy (n + 1) T with hlt | heq | hgt
      · rw [if_neg (by omega), if_neg (by omega), if_pos (by omega), if_pos (by omega)]
        rfl
      · subst heq
        rw [if_pos rfl, if_pos (Nat.lt_succ_self n), if_neg (Nat.lt_irrefl _), Nat.sub_self]
        cases r.readRegister <;> rfl
      · rw [if_neg (by omega), if_neg (show ¬n < T by omega), if_neg (show ¬n + 1 < T by omega)]
        cases hread : r.readRegister with
        | true => rfl
        | false =>
          rw [if_pos ⟨rfl, hgt⟩, if_neg Bool.false_ne_true, if_neg Bool.false_ne_true,
            show n + 1 - T = n - T + 1 by omega, List.replicate_succ]
          rfl
    · rw [reportsOf_concat_of_ne hkey, total_concat, if_neg hkey, Nat.add_zero]
      exact hbefore

end Steps

section Exact

/-- What is said of a key, here that of the packet `q`: no report below the threshold, and else
reports whose counts add up to the sum, or one report with the index. -/
structure ExactOn (T : ℕ) (w : List (Packet size)) (q : Packet size) : Prop where
  below : r.total (r.key q) w < T → r.reportsOf hash (r.key q) w = []
  reported : T ≤ r.total (r.key q) w → r.reportsOf hash (r.key q) w ≠ []
  counts : T ≤ r.total (r.key q) w → r.readRegister = false →
    ((r.reportsOf hash (r.key q) w).map OutHeader.last).sum = r.total (r.key q) w
  once : T ≤ r.total (r.key q) w → r.readRegister = true →
    r.reportsOf hash (r.key q) w = [⟨r.key q, r.index hash q⟩]

/-- This is so for every key of every window in which no two keys share an index and no sum
overflows. -/
def Exact (size : F → ℕ) (T : ℕ) : Prop :=
  ∀ w : List (Packet size), r.Separate hash w → (∀ q ∈ w, r.total (r.key q) w < 2 ^ 32) →
    ∀ q ∈ w, r.ExactOn hash T w q

variable {hash r} {w : List (Packet size)} {q : Packet size} {T : ℕ}

theorem exactOn_of_steady (hsteady : r.reportsOf hash (r.key q) w =
    steadyReports hash r q T (r.total (r.key q) w)) (hT : r.readRegister = true ∨ T < 2 ^ 16) :
    r.ExactOn hash T w q := by
  unfold steadyReports at hsteady
  constructor
  · intro hlt
    rw [hsteady, if_pos hlt]
  · intro hle
    rw [hsteady, if_neg (Nat.not_lt.mpr hle)]
    split <;> simp
  · intro hle hread
    rw [hsteady, if_neg (Nat.not_lt.mpr hle), hread, if_neg Bool.false_ne_true, List.map_append,
      List.sum_append, List.map_replicate, List.sum_replicate]
    have hmod : T % 2 ^ 16 = T := Nat.mod_eq_of_lt (hT.resolve_left (by simp [hread]))
    simp only [List.map_cons, List.map_nil, List.sum_cons, List.sum_nil, hmod, smul_eq_mul, mul_one]
    omega
  · intro hle hread
    rw [hsteady, if_neg (Nat.not_lt.mpr hle), if_pos hread]

/-- A threshold that no sum reaches is exact, as there is nothing to report. -/
theorem exact_of_large (hbound : ∀ p : Packet size, r.bound p = T) (hT : 2 ^ 32 ≤ T) :
    r.Exact hash size T := by
  intro w hsep hw q hq
  have hnone : ∀ k, r.reportsOf hash k w = [] := by
    clear hq
    induction w using List.reverseRecOn with
    | nil => exact fun _ => rfl
    | append_singleton w p ih =>
      have hbefore := ih hsep.left (total_left_lt hw)
      intro k
      by_cases hkey : r.key p = k
      · subst hkey
        have hlt := hw p (by simp)
        rw [reportsOf_last hw hsep (hbound p), hbefore, if_neg (by omega), if_neg (by omega)]
        rfl
      · rw [reportsOf_concat_of_ne hkey, hbefore]
  have hlt := hw q hq
  exact ⟨fun _ => hnone _, fun hle => by omega, fun hle => by omega, fun hle => by omega⟩

omit [DecidableEq F] in
theorem separate_of_key {k : List ℕ} (h : ∀ p ∈ w, r.key p = k) : r.Separate hash w := by
  intro p hp q hq _
  rw [h p hp, h q hq]

omit [DecidableEq F] in
theorem total_lt_of_key {k : List ℕ} (h : ∀ p ∈ w, r.key p = k) (hlt : r.total k w < 2 ^ 32) :
    ∀ p ∈ w, r.total (r.key p) w < 2 ^ 32 := by
  intro p hp
  rw [h p hp]
  exact hlt

omit [DecidableEq F] in
theorem total_replicate (q : Packet size) (n : ℕ) :
    r.total (r.key q) (List.replicate n q) = n * r.summand q := by
  rw [total, List.filter_eq_self.mpr, List.map_replicate, List.sum_replicate, smul_eq_mul]
  intro p hp
  rw [List.eq_of_mem_replicate hp]
  simp

/-- The reports of as many packets with summand 1 as the threshold says. -/
theorem reportsOf_replicate {q : Packet size} (hone : r.summand q = 1) (hbound : r.bound q = T)
    (hT : 1 ≤ T) (hlt : T < 2 ^ 32) :
    r.reportsOf hash (r.key q) (List.replicate T q) =
      [⟨r.key q, if r.readRegister then r.index hash q else T % 2 ^ 16⟩] := by
  have htotal : r.total (r.key q) (List.replicate T q) = T := by
    rw [total_replicate, hone, mul_one]
  have hkeys : ∀ p ∈ List.replicate T q, r.key p = r.key q := by
    intro p hp
    rw [List.eq_of_mem_replicate hp]
  rw [reportsOf_steady (T := T), htotal, steadyReports, if_neg (Nat.lt_irrefl T), Nat.sub_self]
  · cases r.readRegister <;> rfl
  · exact total_lt_of_key hkeys (htotal.trans_lt hlt)
  · exact separate_of_key hkeys
  · intro p hp
    rw [List.eq_of_mem_replicate hp, hone]
  · intro p hp
    rw [List.eq_of_mem_replicate hp, hbound]
  · exact hT

/-- The count has sixteen bits, so a larger threshold is cut off. -/
theorem not_exact_of_wide {q : Packet size} (hone : r.summand q = 1) (hbound : r.bound q = T)
    (hread : r.readRegister = false) (hle : 2 ^ 16 ≤ T) (hlt : T < 2 ^ 32) :
    ¬r.Exact hash size T := by
  intro hexact
  have htotal : r.total (r.key q) (List.replicate T q) = T := by
    rw [total_replicate, hone, mul_one]
  have hkeys : ∀ p ∈ List.replicate T q, r.key p = r.key q := by
    intro p hp
    rw [List.eq_of_mem_replicate hp]
  have hon := hexact (List.replicate T q) (separate_of_key hkeys)
    (total_lt_of_key hkeys (htotal.trans_lt hlt)) q (List.mem_replicate.mpr ⟨by omega, rfl⟩)
  have hcounts := hon.counts htotal.ge hread
  rw [reportsOf_replicate hone hbound (by omega) hlt, hread, htotal] at hcounts
  simp only [Bool.false_eq_true, if_false, List.map_cons, List.map_nil, List.sum_cons, List.sum_nil]
    at hcounts
  omega

/-- A packet whose field is zero is reported if the field is the threshold. -/
theorem not_exact_of_bound {q : Packet size} (hzero : r.summand q = 0) (hbound : r.bound q = 0) :
    ¬r.Exact hash size 1 := by
  intro hexact
  have htotal : r.total (r.key q) ([] ++ [q]) = 0 := by
    rw [total_concat, if_pos rfl, hzero]
    rfl
  have hkeys : ∀ p ∈ [] ++ [q], r.key p = r.key q := by
    intro p hp
    rw [List.nil_append, List.mem_singleton] at hp
    rw [hp]
  have hw := total_lt_of_key hkeys (htotal.trans_lt (by decide))
  have hsep : r.Separate hash ([] ++ [q]) := separate_of_key hkeys
  have hon := hexact ([] ++ [q]) hsep hw q (by simp)
  have hbelow := hon.below (by omega)
  rw [reportsOf_last hw hsep hbound, htotal, if_pos rfl] at hbelow
  simp at hbelow

/-- A sum that stays on the threshold is reported again. -/
theorem not_exact_of_zero {p q : Packet size} (hkey : r.key q = r.key p) (hone : r.summand p = 1)
    (hzero : r.summand q = 0) (hbound : ∀ p : Packet size, r.bound p = T) (hT : 1 ≤ T)
    (hlt : T < 2 ^ 32) : ¬r.Exact hash size T := by
  intro hexact
  have hkeys : ∀ p' ∈ List.replicate T p ++ [q], r.key p' = r.key p := by
    intro p' hp'
    rcases List.mem_append.mp hp' with hp' | hp'
    · rw [List.eq_of_mem_replicate hp']
    · rw [List.mem_singleton.mp hp', hkey]
  have htotal : r.total (r.key p) (List.replicate T p ++ [q]) = T := by
    rw [total_concat, if_pos hkey, hzero, total_replicate, hone]
    omega
  have hw := total_lt_of_key hkeys (htotal.trans_lt hlt)
  have hsep : r.Separate hash (List.replicate T p ++ [q]) := separate_of_key hkeys
  have hon := hexact _ hsep hw q (by simp)
  have hreports : r.reportsOf hash (r.key q) (List.replicate T p ++ [q]) =
      [⟨r.key q, if r.readRegister then r.index hash q else T % 2 ^ 16⟩,
        ⟨r.key q, if r.readRegister then r.index hash q else T % 2 ^ 16⟩] := by
    rw [reportsOf_last hw hsep (hbound q), hkey, htotal, if_pos rfl,
      reportsOf_replicate hone (hbound p) hT hlt, r.index_congr hash hkey]
    rfl
  have hreach : T ≤ r.total (r.key q) (List.replicate T p ++ [q]) := by rw [hkey, htotal]
  cases hread : r.readRegister with
  | true =>
    have honce := hon.once hreach hread
    rw [hreports] at honce
    simp at honce
  | false =>
    have hcounts := hon.counts hreach hread
    rw [hreports, hkey, htotal, hread] at hcounts
    simp only [Bool.false_eq_true, if_false, List.map_cons, List.map_nil, List.sum_cons,
      List.sum_nil] at hcounts
    omega

end Exact

end P4Reduce

section Merged

variable (hash : List Bool → ℕ)

/-- The Reduce counts, and its count fits the out header or is read from the register; or no sum
reaches the threshold. -/
def Reduce.Sums (red : Reduce F) (readRegister : Bool) (T : ℕ) : Prop :=
  2 ^ 32 ≤ T ∨ red.values = .count ∧ (readRegister = true ∨ T < 2 ^ 16)

/-- The field that is added up is one of the keys or has no bits. -/
def Reduce.Fixed (size : F → ℕ) (red : Reduce F) : Prop :=
  ∃ f, red.values = .field f ∧ (.raw f ∈ red.keys ∨ size f = 0)

/-- The Reduce that cleaning makes of a Reduce and a Filter with `geq`. -/
def Reduce.merge (red : Reduce F) (T : ℕ) : Reduce F := ⟨withoutTs red.keys, red.values, T⟩

variable {hash}

/-- The value of a packet is compared with the threshold, except for a field with threshold 1. -/
theorem bound_merge {red : Reduce F} {T : ℕ} (hT : 1 ≤ T) (h : red.values = .count ∨ 2 ≤ T)
    (readRegister : Bool) (p : Packet size) : ((red.merge T).p4 readRegister).bound p = T := by
  unfold P4Reduce.bound Reduce.p4 P4Reduce.new Reduce.merge
  by_cases hle : T ≤ 1
  · rw [h.resolve_right (by omega), if_pos hle]
    dsimp only
    omega
  · rw [if_neg hle]

theorem summand_count {red : Reduce F} (h : red.values = .count) (T : ℕ) (readRegister : Bool)
    (p : Packet size) : ((red.merge T).p4 readRegister).summand p = 1 := by
  unfold P4Reduce.summand Reduce.p4 P4Reduce.new Reduce.merge
  rw [h]

theorem summand_field {red : Reduce F} {f : F} (h : red.values = .field f) (T : ℕ)
    (readRegister : Bool) (p : Packet size) :
    ((red.merge T).p4 readRegister).summand p = (p (.raw f)).toNat := by
  unfold P4Reduce.summand Reduce.p4 P4Reduce.new Reduce.merge
  rw [h]

theorem Reduce.Sums.exact {red : Reduce F} {readRegister : Bool} {T : ℕ} (hT : 1 ≤ T)
    (h : red.Sums readRegister T) : ((red.merge T).p4 readRegister).Exact hash size T := by
  rcases h with hlarge | ⟨hcount, hfits⟩
  · exact P4Reduce.exact_of_large (bound_merge hT (.inr (by omega)) readRegister) hlarge
  · intro w hsep hw q _
    apply P4Reduce.exactOn_of_steady
    · apply P4Reduce.reportsOf_steady hw hsep
      · exact fun p _ => summand_count hcount T readRegister p
      · exact fun p _ => bound_merge hT (.inl hcount) readRegister p
      · exact hT
    · exact hfits

/-- The packet whose fields are all zero. -/
def zeroPacket (size : F → ℕ) : Packet size := fun _ => 0#_

/-- The packet with 1 in one field. -/
def onePacket (size : F → ℕ) (f : F) : Packet size :=
  Function.update (zeroPacket size) (.raw f) (1#((Fld.raw f).width size))

theorem Reduce.Sums.of_exact {red : Reduce F} {readRegister : Bool} {T : ℕ} (hT : 1 ≤ T)
    (hfixed : ¬red.Fixed size) (h : ((red.merge T).p4 readRegister).Exact hash size T) :
    red.Sums readRegister T := by
  by_contra hnot
  rw [Reduce.Sums, not_or] at hnot
  have hlt : T < 2 ^ 32 := by omega
  cases hvalues : red.values with
  | count =>
    have hwide : ¬(readRegister = true ∨ T < 2 ^ 16) := fun hfits => hnot.2 ⟨hvalues, hfits⟩
    rw [not_or] at hwide
    exact P4Reduce.not_exact_of_wide (summand_count hvalues T readRegister (zeroPacket size))
      (bound_merge hT (.inl hvalues) readRegister _)
      (Bool.eq_false_of_not_eq_true hwide.1) (by omega) hlt h
  | field f =>
    have hzero : ((red.merge T).p4 readRegister).summand (zeroPacket size) = 0 := by
      rw [summand_field hvalues]
      rfl
    by_cases hone : T = 1
    · subst hone
      refine P4Reduce.not_exact_of_bound hzero ?_ h
      unfold P4Reduce.bound Reduce.p4 P4Reduce.new Reduce.merge
      rw [hvalues]
      rfl
    · -- a packet with 1 in the field, and then one with 0
      have hkey : .raw f ∉ red.keys := fun hf => hfixed ⟨f, hvalues, .inl hf⟩
      have hsize : 0 < size f := Nat.pos_of_ne_zero fun h0 => hfixed ⟨f, hvalues, .inr h0⟩
      refine P4Reduce.not_exact_of_zero (p := onePacket size f) (q := zeroPacket size) ?_ ?_ hzero
        (bound_merge hT (.inr (by omega)) readRegister) hT hlt h
      · unfold P4Reduce.key
        apply List.map_congr_left
        intro fld hfld
        have hne : fld ≠ .raw f := by
          rintro rfl
          exact hkey (List.mem_of_mem_filter (List.mem_of_mem_filter hfld))
        rw [onePacket, Function.update_of_ne hne]
      · rw [summand_field hvalues, onePacket, Function.update_self, BitVec.toNat_ofNat]
        exact Nat.mod_eq_of_lt (Nat.one_lt_two_pow hsize.ne')

/-- Cleaning merges a Reduce and a Filter with `geq` anywhere in a query. The code generated for
the merged Reduce is exact if the Reduce counts, and only then unless the field it adds up is
fixed by its keys. -/
theorem reduce_exact (hash : List Bool → ℕ) (size : F → ℕ) (pre post : List (Operator F))
    (red : Reduce F) (keys : List (Fld F)) {T : ℕ} (hT : 1 ≤ T) (readRegister : Bool) :
    cleanOperators false (pre ++ .reduce red :: .filter keys .geq T :: post) =
        cleanOperators false pre ++ .reduce (red.merge T) :: cleanOperators false post ∧
      (red.Sums readRegister T → ((red.merge T).p4 readRegister).Exact hash size T) ∧
      (¬red.Fixed size →
        (((red.merge T).p4 readRegister).Exact hash size T ↔ red.Sums readRegister T)) := by
  refine ⟨cleanOperators_merge pre post red keys T false fun _ => rfl, fun h => h.exact hT, ?_⟩
  intro hfixed
  exact ⟨fun h => .of_exact hT hfixed h, fun h => h.exact hT⟩

end Merged

section Slowloris

inductive IpField
  | dstIP
  | totalLen
  deriving DecidableEq

def ipSize : IpField → ℕ
  | .dstIP => 32
  | .totalLen => 16

/-- Packets of each destination are counted, up to forty of them. -/
theorem reduce_exact_reflection :
    ((Reduce.mk [.ts, .raw IpField.dstIP] .count 1).merge 40 |>.p4 true).Exact
      (fun l => (crc16 l).toNat) ipSize 40 :=
  (reduce_exact (fun l => (crc16 l).toNat) ipSize [] [] ⟨[.ts, .raw .dstIP], .count, 1⟩ []
    (show 1 ≤ 40 by decide) true).2.1 (.inr ⟨rfl, .inl rfl⟩)

/-- One packet of sixty bytes to a destination. -/
def sixtyBytes : Packet ipSize
  | .raw .dstIP => 0x0a000001#32
  | .raw .totalLen => 60#16
  | .qid => 1#16
  | .count => 0#16
  | .index => 0#16
  | .ts => 0#0
  | .payload => 0#0

/-- The bytes to each destination are added up. The first packet steps over the threshold and is
not reported. -/
theorem bytes_not_reported :
    ¬∀ (red : Reduce IpField) (T : ℕ) (readRegister : Bool), 1 ≤ T →
      ((red.merge T).p4 readRegister).Exact (fun l => (crc16 l).toNat) ipSize T := by
  intro h
  have hexact := h ⟨[.raw .dstIP], .field .totalLen, 1⟩ 40 true (by decide)
  have hon := hexact [sixtyBytes] (P4Reduce.separate_of_key fun p hp => by
      rw [List.mem_singleton.mp hp])
    (fun q hq => by rw [List.mem_singleton.mp hq]; decide +kernel) sixtyBytes (by simp)
  exact hon.reported (by decide +kernel) (by decide +kernel)

end Slowloris

end P4Survey.Sonata
