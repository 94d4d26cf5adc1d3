import Mathlib.Algebra.BigOperators.Group.Finset.Basic
import P4Survey.Lib.Loop
import P4Survey.Lib.Counts
import P4Survey.SketchLearn.Counters
import P4Survey.SketchLearn.Primes

/-! # The key table

`alg_keytbl.c`: a key has an entry in the list of its hash value, found by going through the
list from its start, and an entry that was not updated for some time may be taken for another
key. Keys are the bytes of them that are used. Timestamps are of type `double` in the source;
here they have the operations that are applied to them, and no law of these is needed.
-/

namespace P4Survey.SketchLearn

open Lib

structure KeyEntry (T : Type*) where
  key : List UInt8
  size : ℤ
  oldTs : T
  newTs : T

/-- A tuple that is recorded at some time, and its size then added to that of the entry. -/
structure Update (T : Type*) where
  key : List UInt8
  size : ℤ
  ts : T

/-- A key has `n` bits. -/
structure KeyTable (T : Type*) where
  list : ℕ → ℕ → KeyEntry T
  listLen : ℕ → ℕ
  n : ℕ
  entryTo : T
  tblListSize : ℕ
  tblListLen : ℕ
  numKey : ℕ
  hash : UInt64
  scale : UInt64
  hardner : UInt64

namespace KeyTable

/-- `exit` because a list is full, or a signed sum that does not fit. -/
inductive Fault where
  | exhausted | overflow
  deriving DecidableEq

section

variable {T : Type*} (t : KeyTable T)

def bucket (key : List UInt8) : ℕ :=
  (awareHash key t.hash t.scale t.hardner).toNat % t.tblListSize

def setEntry (b i : ℕ) (e : KeyEntry T) : KeyTable T :=
  { t with list := Function.update t.list b (Function.update (t.list b) i e) }

theorem setEntry_self (b i : ℕ) (e : KeyEntry T) : (t.setEntry b i e).list b i = e := by
  change Function.update t.list b _ b i = e
  rw [Function.update_self, Function.update_self]

theorem setEntry_of_ne {b i b' i' : ℕ} (h : ¬(b' = b ∧ i' = i)) (e : KeyEntry T) :
    (t.setEntry b i e).list b' i' = t.list b' i' := by
  change Function.update t.list b _ b' i' = _
  by_cases hb : b' = b
  · subst hb
    rw [Function.update_self, Function.update_of_ne fun hi => h ⟨rfl, hi⟩]
  · rw [Function.update_of_ne hb]

theorem setEntry_setEntry (b i : ℕ) (e e' : KeyEntry T) :
    (t.setEntry b i e).setEntry b i e' = t.setEntry b i e' := by
  simp only [setEntry, Function.update_self, Function.update_idem]

end

section

variable {T : Type*} [BEq T] [Zero T] [One T] [Neg T] [Sub T] [LT T] [DecidableLT T]

/-- The entries as `calloc` and `memset` leave them. -/
def zeroEntry (n : ℕ) : KeyEntry T := ⟨List.replicate (n / 8) 0, 0, 0, 0⟩

/-- The seeds are drawn by `GenHashSeed`. -/
def init (n tblListSize tblListLen : ℕ) (entryTo : T) (hash scale hardner : UInt64) :
    Option (KeyTable T) :=
  (calcNextPrime tblListSize).map fun p =>
    { list := fun _ _ => zeroEntry n
      listLen := fun _ => 0
      n := n
      entryTo := entryTo
      tblListSize := p
      tblListLen := tblListLen
      numKey := 0
      hash := hash
      scale := scale
      hardner := hardner }

variable (t : KeyTable T)

/-- The loop of `key_tbl_record` from entry `i` on: the index of the key, and that of the first
entry that has expired. -/
def searchLoop (b : ℕ) (key : List UInt8) (ts : T) :
    ℕ → ℕ → Option ℕ → Option ℕ × Option ℕ
  | 0, _, repInd => (none, repInd)
  | n + 1, i, repInd =>
    if (t.list b i).key = key then (some i, repInd)
    else searchLoop b key ts n (i + 1)
      (if !(t.entryTo == -1) && repInd.isNone && decide (t.entryTo < ts - (t.list b i).newTs)
        then some i else repInd)

/-- The entry that `key_tbl_record` returns, before its fields are updated. -/
def place (key : List UInt8) (ts : T) : Except Fault (KeyTable T × ℕ) :=
  let b := t.bucket key
  match t.searchLoop b key ts (t.listLen b) 0 none with
  | (some curInd, _) => .ok (t, curInd)
  | (none, some repInd) => .ok (t.setEntry b repInd { t.list b repInd with newTs := 0 }, repInd)
  | (none, none) =>
    if t.tblListLen ≤ t.listLen b then .error .exhausted
    else .ok
      ({ t with
        numKey := t.numKey + 1
        listLen := Function.update t.listLen b (t.listLen b + 1) }, t.listLen b)

def record (key : List UInt8) (ts : T) : Except Fault (KeyTable T × ℕ) :=
  (t.place key ts).map fun (t, i) =>
    let b := t.bucket key
    let e := t.list b i
    -- a timestamp of 0 marks an entry that is new or replaced
    (t.setEntry b i
      { key := key, oldTs := e.newTs, newTs := ts, size := if e.newTs == 0 then 0 else e.size }, i)

def addSize (b i : ℕ) (size : ℤ) : Except Fault (KeyTable T) :=
  let e := t.list b i
  let v := e.size + size
  if -2 ^ 31 ≤ v ∧ v < 2 ^ 31 then .ok (t.setEntry b i { e with size := v })
  else .error .overflow

/-- What the callers of `key_tbl_record` do with it. -/
def update (u : Update T) : Except Fault (KeyTable T) :=
  (t.record u.key u.ts).bind fun (t, i) => t.addSize (t.bucket u.key) i u.size

def updateAll (t : KeyTable T) : List (Update T) → Except Fault (KeyTable T)
  | [] => .ok t
  | u :: us => (t.update u).bind fun t => t.updateAll us

def find (key : List UInt8) : Option ℕ :=
  (List.range (t.listLen (t.bucket key))).find? fun i => (t.list (t.bucket key) i).key = key

def getAll : List (List UInt8 × ℤ) :=
  (List.range t.tblListSize).flatMap fun i =>
    (List.range (t.listLen i)).map fun j => ((t.list i j).key, (t.list i j).size)

/-- `key_tbl_num_key`. -/
def keyTblNumKey : ℕ := ((List.range t.tblListSize).map t.listLen).sum

def reset : KeyTable T :=
  { t with
    numKey := 0
    list := fun b i => if b < t.tblListSize ∧ i < t.tblListLen then zeroEntry t.n else t.list b i
    listLen := fun b => if b < t.tblListSize then 0 else t.listLen b }

section

variable {t}

omit [Zero T] in
/-- No entry expires when timeouts are disabled. -/
theorem searchLoop_eq (hto : (t.entryTo == -1) = true) (b : ℕ) (key : List UInt8) (ts : T)
    (n i : ℕ) :
    t.searchLoop b key ts n i none =
      ((List.range' i n).find? fun j => (t.list b j).key = key, none) := by
  induction n generalizing i with
  | zero => rfl
  | succ n ih =>
    rw [searchLoop, List.range'_succ, List.find?_cons, hto]
    by_cases hkey : (t.list b i).key = key
    · rw [if_pos hkey, decide_eq_true hkey]
    · rw [if_neg hkey, decide_eq_false hkey]
      exact ih (i + 1)

end

end

section

variable {T : Type*} [Zero T] {t : KeyTable T} {l : List (Update T)} {u : Update T}
  {key : List UInt8}

/-- The sum of the sizes of the updates of a key. -/
def total (l : List (Update T)) (key : List UInt8) : ℤ :=
  tally (l.map fun u => (u.key, u.size)) (· = key)

/-- The entries in use are those of the keys that were recorded, each in the list of its key and
with the sum of its updates, and the entries after them are as they were allocated. -/
structure Inv (t : KeyTable T) (l : List (Update T)) : Prop where
  pos : 0 < t.tblListSize
  room : ∀ b, t.listLen b ≤ t.tblListLen
  fresh : ∀ b i, t.listLen b ≤ i → t.list b i = zeroEntry t.n
  home : ∀ b i, i < t.listLen b → t.bucket (t.list b i).key = b
  unique : ∀ b i j, i < t.listLen b → j < t.listLen b →
    (t.list b i).key = (t.list b j).key → i = j
  keys : ∀ key, key ∈ l.map Update.key ↔
    ∃ i < t.listLen (t.bucket key), (t.list (t.bucket key) i).key = key
  sizes : ∀ b i, i < t.listLen b → (t.list b i).size = total l (t.list b i).key
  numKey : t.numKey = (l.map Update.key).toFinset.card
  sum : t.numKey = t.keyTblNumKey

omit [Zero T] in
theorem total_concat (l : List (Update T)) (u : Update T) (key : List UInt8) :
    total (l ++ [u]) key = total l key + if u.key = key then u.size else 0 := by
  rw [total, List.map_append, tally_append, List.map_singleton, tally_cons, tally_nil, add_zero,
    total]

omit [Zero T] in
theorem total_of_notMem (hkey : key ∉ l.map Update.key) : total l key = 0 := by
  apply List.sum_eq_zero
  intro v hv
  rw [List.map_map, List.mem_map] at hv
  obtain ⟨u, hu, rfl⟩ := hv
  exact if_neg fun heq => hkey (List.mem_map.mpr ⟨u, hu, heq⟩)

namespace Inv

/-- An entry for the key of an update, the one that is there or a new one, is filled. -/
theorem put (h : t.Inv l) {i m : ℕ} {len : ℕ → ℕ} {e : KeyEntry T}
    (hlen : ∀ b j, j < len b ↔ j < t.listLen b ∨ b = t.bucket u.key ∧ j = i)
    (hself : ∀ j < t.listLen (t.bucket u.key),
      (t.list (t.bucket u.key) j).key = u.key ↔ j = i)
    (hkey : e.key = u.key) (hsize : e.size = total l u.key + u.size)
    (hroom : ∀ b, len b ≤ t.tblListLen)
    (hnum : m = ((l ++ [u]).map Update.key).toFinset.card)
    (hsum : m = ((List.range t.tblListSize).map len).sum) :
    (KeyTable.setEntry { t with numKey := m, listLen := len } (t.bucket u.key) i e).Inv
      (l ++ [u]) := by
  set t' := KeyTable.setEntry { t with numKey := m, listLen := len } (t.bucket u.key) i e
  have hnew : t'.list (t.bucket u.key) i = e := setEntry_self _ _ _ e
  have hold {b j : ℕ} (hne : ¬(b = t.bucket u.key ∧ j = i)) : t'.list b j = t.list b j :=
    setEntry_of_ne _ hne e
  -- an entry in use is the one that was filled, or was in use with another key
  have hcases {b j : ℕ} (hj : j < len b) : b = t.bucket u.key ∧ j = i ∨
      t'.list b j = t.list b j ∧ j < t.listLen b ∧ (t.list b j).key ≠ u.key := by
    by_cases hne : b = t.bucket u.key ∧ j = i
    · exact .inl hne
    · have hlt : j < t.listLen b := ((hlen b j).mp hj).resolve_right hne
      refine .inr ⟨hold hne, hlt, fun heq => hne ?_⟩
      have hb : t.bucket u.key = b := heq ▸ h.home b j hlt
      subst hb
      exact ⟨rfl, (hself j hlt).mp heq⟩
  refine
    { pos := h.pos
      room := hroom
      fresh := ?_
      home := ?_
      unique := ?_
      keys := ?_
      sizes := ?_
      numKey := hnum
      sum := hsum }
  · intro b j hj
    have hnot : ¬j < len b := hj.not_gt
    rw [hlen, not_or] at hnot
    rw [hold hnot.2]
    exact h.fresh b j (not_lt.mp hnot.1)
  · intro b j hj
    obtain ⟨rfl, rfl⟩ | ⟨heq, hlt, -⟩ := hcases hj
    · rw [hnew, hkey]
      rfl
    · rw [heq]
      exact h.home b j hlt
  · intro b j k hj hk heq
    obtain ⟨rfl, rfl⟩ | ⟨hj', hltj, hnej⟩ := hcases hj
    · obtain ⟨-, rfl⟩ | ⟨hk', hltk, hnek⟩ := hcases hk
      · rfl
      · rw [hnew, hk', hkey] at heq
        exact absurd heq.symm hnek
    · obtain ⟨rfl, rfl⟩ | ⟨hk', hltk, hnek⟩ := hcases hk
      · rw [hnew, hj', hkey] at heq
        exact absurd heq hnej
      · rw [hj', hk'] at heq
        exact h.unique b j k hltj hltk heq
  · intro key
    change _ ↔ ∃ j < len (t.bucket key), (t'.list (t.bucket key) j).key = key
    rw [List.map_append, List.map_singleton, List.mem_append, List.mem_singleton, h.keys]
    constructor
    · rintro (⟨j, hj, heq⟩ | rfl)
      · refine ⟨j, (hlen _ _).mpr (.inl hj), ?_⟩
        by_cases hne : t.bucket key = t.bucket u.key ∧ j = i
        · rw [hne.1] at hj heq
          rw [hne.1, hne.2, hnew, hkey, ← (hself j hj).mpr hne.2, heq]
        · rw [hold hne, heq]
      · exact ⟨i, (hlen _ _).mpr (.inr ⟨rfl, rfl⟩), by rw [hnew, hkey]⟩
    · rintro ⟨j, hj, heq⟩
      obtain ⟨hb, rfl⟩ | ⟨hj', hlt, -⟩ := hcases hj
      · rw [hb, hnew, hkey] at heq
        exact .inr heq.symm
      · exact .inl ⟨j, hlt, hj' ▸ heq⟩
  · intro b j hj
    rw [total_concat]
    obtain ⟨rfl, rfl⟩ | ⟨heq, hlt, hne⟩ := hcases hj
    · rw [hnew, hkey, if_pos rfl, hsize]
    · rw [heq, if_neg hne.symm, add_zero]
      exact h.sizes b j hlt

theorem put_existing (h : t.Inv l) {i : ℕ} (hi : i < t.listLen (t.bucket u.key))
    (hkey : (t.list (t.bucket u.key) i).key = u.key) {e : KeyEntry T} (hekey : e.key = u.key)
    (hsize : e.size = total l u.key + u.size) :
    (t.setEntry (t.bucket u.key) i e).Inv (l ++ [u]) := by
  have hmem : u.key ∈ l.map Update.key := (h.keys u.key).mpr ⟨i, hi, hkey⟩
  refine h.put (m := t.numKey) ?_ ?_ hekey hsize h.room ?_ h.sum
  · intro b j
    refine ⟨.inl, ?_⟩
    rintro (hj | ⟨rfl, rfl⟩)
    · exact hj
    · exact hi
  · intro j hj
    exact ⟨fun hkeyj => h.unique _ j i hj hi (hkeyj.trans hkey.symm), fun heq => heq ▸ hkey⟩
  · rw [h.numKey, List.map_append, List.toFinset_append, List.map_singleton,
      Finset.union_eq_left.mpr]
    simpa using hmem

end Inv

/-- The list of a new key gets one longer. -/
theorem sum_update (len : ℕ → ℕ) (b n : ℕ) :
    ((List.range n).map (Function.update len b (len b + 1))).sum =
      ((List.range n).map len).sum + if b < n then 1 else 0 := by
  induction n with
  | zero => rfl
  | succ n ih =>
    rw [List.range_succ, List.map_append, List.map_append, List.sum_append, List.sum_append, ih,
      List.map_singleton, List.map_singleton, List.sum_singleton, List.sum_singleton]
    by_cases hb : n = b
    · subst hb
      rw [Function.update_self, if_neg (lt_irrefl n), if_pos (Nat.lt_succ_self n)]
      omega
    · rw [Function.update_of_ne hb]
      split_ifs <;> omega

namespace Inv

theorem put_new (h : t.Inv l) (hmem : u.key ∉ l.map Update.key)
    (hroom : t.listLen (t.bucket u.key) < t.tblListLen) {e : KeyEntry T} (hekey : e.key = u.key)
    (hsize : e.size = u.size) :
    (KeyTable.setEntry
      { t with
        numKey := t.numKey + 1
        listLen := Function.update t.listLen (t.bucket u.key) (t.listLen (t.bucket u.key) + 1) }
      (t.bucket u.key) (t.listLen (t.bucket u.key)) e).Inv (l ++ [u]) := by
  apply h.put
  · intro b j
    by_cases hb : b = t.bucket u.key
    · rw [hb, Function.update_self, Nat.lt_succ_iff_lt_or_eq]
      simp
    · rw [Function.update_of_ne hb]
      simp [hb]
  · intro j hj
    refine iff_of_false (fun hkey => ?_) hj.ne
    exact hmem ((h.keys u.key).mpr ⟨j, hj, hkey⟩)
  · exact hekey
  · rw [hsize, total_of_notMem hmem, zero_add]
  · intro b
    by_cases hb : b = t.bucket u.key
    · rw [hb, Function.update_self]
      exact hroom
    · rw [Function.update_of_ne hb]
      exact h.room b
  · rw [h.numKey, List.map_append, List.toFinset_append, List.map_singleton, Finset.union_comm]
    exact (Finset.card_insert_of_notMem (by simpa using hmem)).symm
  · have hlt : t.bucket u.key < t.tblListSize := Nat.mod_lt _ h.pos
    rw [sum_update, if_pos hlt, h.sum, keyTblNumKey]

/-- A list has one entry for each of its keys. -/
theorem card_bucket (h : t.Inv l) (b : ℕ) :
    ((l.map Update.key).toFinset.filter fun key => t.bucket key = b).card = t.listLen b := by
  have himage : ((l.map Update.key).toFinset.filter fun key => t.bucket key = b) =
      (Finset.range (t.listLen b)).image fun i => (t.list b i).key := by
    ext key
    rw [Finset.mem_filter, List.mem_toFinset, h.keys, Finset.mem_image]
    constructor
    · rintro ⟨⟨i, hi, heq⟩, rfl⟩
      exact ⟨i, Finset.mem_range.mpr hi, heq⟩
    · rintro ⟨i, hi, rfl⟩
      rw [Finset.mem_range] at hi
      rw [h.home b i hi]
      exact ⟨⟨i, hi, rfl⟩, rfl⟩
  rw [himage, Finset.card_image_of_injOn, Finset.card_range]
  intro i hi j hj heq
  exact h.unique b i j (Finset.mem_range.mp hi) (Finset.mem_range.mp hj) heq

theorem notMem_of_find (h : t.Inv l) (hfind : t.find u.key = none) :
    u.key ∉ l.map Update.key := by
  intro hkey
  obtain ⟨i, hi, heq⟩ := (h.keys u.key).mp hkey
  exact List.find?_eq_none.mp hfind i (List.mem_range.mpr hi) (decide_eq_true heq)

theorem listLen_lt_card (h : t.Inv l) (hmem : u.key ∉ l.map Update.key) (us : List (Update T)) :
    t.listLen (t.bucket u.key) < (((l ++ [u] ++ us).map Update.key).toFinset.filter
      fun key => t.bucket key = t.bucket u.key).card := by
  rw [← h.card_bucket]
  apply Finset.card_lt_card
  rw [Finset.ssubset_iff_of_subset]
  · refine ⟨u.key, ?_, ?_⟩
    · simp
    · rw [Finset.mem_filter, List.mem_toFinset, not_and_or]
      exact .inl hmem
  · intro key hkey
    rw [Finset.mem_filter, List.mem_toFinset] at hkey ⊢
    rw [List.map_append, List.map_append, List.mem_append, List.mem_append]
    exact ⟨.inl (.inl hkey.1), hkey.2⟩

/-- All entries in use are returned, those of each key once. -/
theorem getAll (h : t.Inv l) :
    (t.getAll.map Prod.fst).Nodup ∧
      ∀ key size, (key, size) ∈ t.getAll ↔ key ∈ l.map Update.key ∧ size = total l key := by
  constructor
  · rw [KeyTable.getAll, List.map_flatMap, List.nodup_flatMap]
    constructor
    · intro b _
      rw [List.map_map]
      refine (List.nodup_range).map_on ?_
      intro i hi j hj heq
      exact h.unique b i j (List.mem_range.mp hi) (List.mem_range.mp hj) heq
    · refine List.nodup_range.imp fun {b b'} hne key hkey hkey' => hne ?_
      dsimp only at hkey hkey'
      rw [List.map_map, List.mem_map] at hkey hkey'
      obtain ⟨i, hi, rfl⟩ := hkey
      obtain ⟨j, hj, heq⟩ := hkey'
      have hb := h.home b i (List.mem_range.mp hi)
      have hb' := h.home b' j (List.mem_range.mp hj)
      exact hb.symm.trans ((congrArg t.bucket heq.symm).trans hb')
  · intro key size
    rw [KeyTable.getAll, List.mem_flatMap]
    constructor
    · rintro ⟨b, -, he⟩
      obtain ⟨i, hi, heq⟩ := List.mem_map.mp he
      obtain ⟨rfl, rfl⟩ := Prod.mk.inj heq
      rw [List.mem_range] at hi
      refine ⟨(h.keys _).mpr ?_, h.sizes b i hi⟩
      rw [h.home b i hi]
      exact ⟨i, hi, rfl⟩
    · rintro ⟨hkey, rfl⟩
      obtain ⟨i, hi, heq⟩ := (h.keys key).mp hkey
      refine ⟨t.bucket key, List.mem_range.mpr (Nat.mod_lt _ h.pos), ?_⟩
      refine List.mem_map.mpr ⟨i, List.mem_range.mpr hi, ?_⟩
      rw [h.sizes _ i hi, heq]

theorem listLen_of_le (h : t.Inv l) {b : ℕ} (hb : t.tblListSize ≤ b) : t.listLen b = 0 := by
  by_contra hne
  have hlt : t.bucket (t.list b 0).key < t.tblListSize := Nat.mod_lt _ h.pos
  rw [h.home b 0 (Nat.pos_of_ne_zero hne)] at hlt
  omega

/-- A table that was reset is empty. -/
theorem reset (h : t.Inv l) : t.reset.Inv [] := by
  have hlen (b : ℕ) : t.reset.listLen b = 0 := by
    by_cases hb : b < t.tblListSize
    · exact if_pos hb
    · exact (if_neg hb).trans (h.listLen_of_le (not_lt.mp hb))
  have hnot {b i : ℕ} (hi : i < t.reset.listLen b) : False := by
    rw [hlen] at hi
    exact Nat.not_lt_zero i hi
  refine
    { pos := h.pos
      room := fun b => by rw [hlen]; exact Nat.zero_le _
      fresh := ?_
      home := fun b i hi => (hnot hi).elim
      unique := fun b i j hi => (hnot hi).elim
      keys := fun key => iff_of_false List.not_mem_nil fun ⟨i, hi, _⟩ => hnot hi
      sizes := fun b i hi => (hnot hi).elim
      numKey := rfl
      sum := ?_ }
  · intro b i _
    change (if b < t.tblListSize ∧ i < t.tblListLen then zeroEntry t.n else t.list b i) = _
    split_ifs with hb
    · rfl
    · apply h.fresh
      by_cases hlt : b < t.tblListSize
      · exact (h.room b).trans (not_lt.mp fun hi => hb ⟨hlt, hi⟩)
      · rw [h.listLen_of_le (not_lt.mp hlt)]
        exact Nat.zero_le i
  · symm
    apply List.sum_eq_zero
    intro v hv
    obtain ⟨b, -, rfl⟩ := List.mem_map.mp hv
    exact hlen b

end Inv

theorem inv_init {n size len : ℕ} {entryTo : T} {hash scale hardner : UInt64}
    (hinit : init n size len entryTo hash scale hardner = some t) :
    t.Inv [] ∧ t.entryTo = entryTo ∧ ∀ b, t.listLen b = 0 := by
  obtain ⟨p, hp, rfl⟩ := Option.map_eq_some_iff.mp hinit
  obtain ⟨q, hq, hprime, -⟩ := calcNextPrime_eq size
  obtain rfl := Option.some.inj (hq.symm.trans hp)
  refine ⟨?_, rfl, fun _ => rfl⟩
  exact
    { pos := hprime.pos
      room := fun _ => Nat.zero_le _
      fresh := fun _ _ _ => rfl
      home := nofun
      unique := nofun
      keys := fun key => iff_of_false List.not_mem_nil nofun
      sizes := nofun
      numKey := rfl
      sum := by simp [keyTblNumKey] }

end

section

variable {T : Type*} [BEq T] [Zero T] [One T] [Neg T] [Sub T] [LT T] [DecidableLT T]
  {t : KeyTable T} {l us : List (Update T)} {u : Update T}

theorem place_existing (hto : (t.entryTo == -1) = true) {i : ℕ} (hfind : t.find u.key = some i) :
    t.place u.key u.ts = .ok (t, i) := by
  rw [place]
  dsimp only
  rw [searchLoop_eq hto, ← List.range_eq_range', ← find, hfind]

theorem place_new (hto : (t.entryTo == -1) = true) (hfind : t.find u.key = none) :
    t.place u.key u.ts =
      if t.tblListLen ≤ t.listLen (t.bucket u.key) then .error .exhausted
      else .ok
        ({ t with
          numKey := t.numKey + 1
          listLen := Function.update t.listLen (t.bucket u.key)
            (t.listLen (t.bucket u.key) + 1) }, t.listLen (t.bucket u.key)) := by
  rw [place]
  dsimp only
  rw [searchLoop_eq hto, ← List.range_eq_range', ← find, hfind]

/-- The size is added to what the entry holds, or to 0 if the entry is new. -/
theorem update_eq {i : ℕ} {t₁ : KeyTable T} (hplace : t.place u.key u.ts = .ok (t₁, i)) {v : ℤ}
    (hv : v = (if (t₁.list (t₁.bucket u.key) i).newTs == 0 then 0
      else (t₁.list (t₁.bucket u.key) i).size) + u.size)
    (hfit : -2 ^ 31 ≤ v ∧ v < 2 ^ 31) :
    t.update u = .ok (t₁.setEntry (t₁.bucket u.key) i
      { key := u.key, size := v, oldTs := (t₁.list (t₁.bucket u.key) i).newTs, newTs := u.ts }) := by
  set b := t₁.bucket u.key
  set e := t₁.list b i
  set e₁ : KeyEntry T := ⟨u.key, if e.newTs == 0 then 0 else e.size, e.newTs, u.ts⟩ with he₁
  have hrecord : t.record u.key u.ts = .ok (t₁.setEntry b i e₁, i) := by
    rw [record, hplace]
    rfl
  rw [update, hrecord]
  change (t₁.setEntry b i e₁).addSize b i u.size = _
  rw [addSize, setEntry_self, setEntry_setEntry, he₁, ← hv, if_pos hfit]

/-- What an update leaves as it is: an entry in use after it is that of its key, or one from
before. -/
structure Kept (t : KeyTable T) (u : Update T) (t' : KeyTable T) : Prop where
  entryTo : t'.entryTo = t.entryTo
  bucket : t'.bucket = t.bucket
  tblListLen : t'.tblListLen = t.tblListLen
  entries : ∀ b i, i < t'.listLen b → (t'.list b i).key = u.key ∧ (t'.list b i).newTs = u.ts ∨
    i < t.listLen b ∧ t'.list b i = t.list b i

namespace Inv

theorem update_existing (h : t.Inv l) (hto : (t.entryTo == -1) = true) {i : ℕ}
    (hfind : t.find u.key = some i)
    (hts : ∀ i < t.listLen (t.bucket u.key), (t.list (t.bucket u.key) i).key = u.key →
      ((t.list (t.bucket u.key) i).newTs == 0) = false)
    (hfit : -2 ^ 31 ≤ total (l ++ [u]) u.key ∧ total (l ++ [u]) u.key < 2 ^ 31) :
    ∃ t', t.update u = .ok t' ∧ t'.Inv (l ++ [u]) ∧ Kept t u t' := by
  have hi : i < t.listLen (t.bucket u.key) := List.mem_range.mp (List.mem_of_find?_eq_some hfind)
  have hkey := List.find?_some hfind
  rw [decide_eq_true_eq] at hkey
  have hsize : (t.list (t.bucket u.key) i).size = total l u.key := by rw [h.sizes _ i hi, hkey]
  rw [total_concat, if_pos rfl] at hfit
  refine ⟨_, update_eq (place_existing hto hfind) ?_ hfit, ?_, ⟨rfl, rfl, rfl, ?_⟩⟩
  · rw [hts i hi hkey, hsize]
    rfl
  · exact h.put_existing hi hkey rfl rfl
  · intro b j hj
    by_cases hne : b = t.bucket u.key ∧ j = i
    · rw [hne.1, hne.2, setEntry_self]
      exact .inl ⟨rfl, rfl⟩
    · exact .inr ⟨hj, setEntry_of_ne _ hne _⟩

theorem update_new (h : t.Inv l) (hto : (t.entryTo == -1) = true) (hfind : t.find u.key = none)
    (hroom : t.listLen (t.bucket u.key) < t.tblListLen)
    (hfit : -2 ^ 31 ≤ total (l ++ [u]) u.key ∧ total (l ++ [u]) u.key < 2 ^ 31) :
    ∃ t', t.update u = .ok t' ∧ t'.Inv (l ++ [u]) ∧ Kept t u t' := by
  have hmem : u.key ∉ l.map Update.key := h.notMem_of_find hfind
  have hplace := place_new hto hfind
  rw [if_neg hroom.not_ge] at hplace
  rw [total_concat, if_pos rfl, total_of_notMem hmem, zero_add] at hfit
  refine ⟨_, update_eq hplace ?_ hfit, ?_, ⟨rfl, rfl, rfl, ?_⟩⟩
  · change u.size = (if (t.list _ (t.listLen _)).newTs == 0 then 0
      else (t.list (t.bucket u.key) (t.listLen (t.bucket u.key))).size) + u.size
    rw [h.fresh _ _ le_rfl]
    simp [zeroEntry]
  · exact h.put_new hmem hroom rfl rfl
  · intro b j hj
    by_cases hne : b = t.bucket u.key ∧ j = t.listLen (t.bucket u.key)
    · rw [hne.1, hne.2]
      exact .inl ⟨congrArg KeyEntry.key (setEntry_self _ _ _ _),
        congrArg KeyEntry.newTs (setEntry_self _ _ _ _)⟩
    · refine .inr ⟨?_, setEntry_of_ne _ hne _⟩
      change j < Function.update t.listLen _ _ b at hj
      by_cases hb : b = t.bucket u.key
      · subst hb
        rw [Function.update_self] at hj
        exact (Nat.lt_succ_iff_lt_or_eq.mp hj).resolve_right fun heq => hne ⟨rfl, heq⟩
      · rwa [Function.update_of_ne hb] at hj

/-- An update ends the program if its key is new and its list is full. -/
theorem update (h : t.Inv l) (hto : (t.entryTo == -1) = true)
    (hts : ∀ i < t.listLen (t.bucket u.key), (t.list (t.bucket u.key) i).key = u.key →
      ((t.list (t.bucket u.key) i).newTs == 0) = false)
    (hfit : -2 ^ 31 ≤ total (l ++ [u]) u.key ∧ total (l ++ [u]) u.key < 2 ^ 31) :
    (t.update u = .error .exhausted ∧ u.key ∉ l.map Update.key ∧
        t.tblListLen ≤ t.listLen (t.bucket u.key)) ∨
      ∃ t', t.update u = .ok t' ∧ t'.Inv (l ++ [u]) ∧ Kept t u t' := by
  cases hfind : t.find u.key with
  | some i => exact .inr (h.update_existing hto hfind hts hfit)
  | none =>
    by_cases hfull : t.tblListLen ≤ t.listLen (t.bucket u.key)
    · refine .inl ⟨?_, h.notMem_of_find hfind, hfull⟩
      rw [KeyTable.update, record, place_new hto hfind, if_pos hfull]
      rfl
    · exact .inr (h.update_new hto hfind (not_le.mp hfull) hfit)

/-- The updates are counted unless there are too many keys for a list. -/
theorem updateAll (h : t.Inv l) (hto : (t.entryTo == -1) = true)
    (hstamp : ∀ b i, i < t.listLen b → ((t.list b i).newTs == 0) = true →
      (t.list b i).key ∉ us.map Update.key)
    (hts : us.Pairwise fun u v => (u.ts == 0) = true → v.key ≠ u.key)
    (hfit : ∀ l', l' <+: us → ∀ key,
      -2 ^ 31 ≤ total (l ++ l') key ∧ total (l ++ l') key < 2 ^ 31) :
    (t.updateAll us = .error .exhausted ∧ ∃ b, t.tblListLen <
        (((l ++ us).map Update.key).toFinset.filter fun key => t.bucket key = b).card) ∨
      ∃ t', t.updateAll us = .ok t' ∧ t'.Inv (l ++ us) := by
  induction us generalizing t l with
  | nil => exact .inr ⟨t, rfl, by rwa [List.append_nil]⟩
  | cons u us ih =>
    rw [List.pairwise_cons] at hts
    have hfirst (i : ℕ) (hi : i < t.listLen (t.bucket u.key))
        (hkey : (t.list (t.bucket u.key) i).key = u.key) :
        ((t.list (t.bucket u.key) i).newTs == 0) = false := by
      refine Bool.eq_false_iff.mpr fun hzero => hstamp _ i hi hzero ?_
      rw [hkey]
      exact List.mem_map_of_mem List.mem_cons_self
    have happend : l ++ u :: us = l ++ [u] ++ us := by rw [List.append_assoc, List.singleton_append]
    rw [KeyTable.updateAll, happend]
    obtain ⟨herror, hmem, hfull⟩ | ⟨t₁, hok, h₁, hkept⟩ :=
      h.update hto hfirst (hfit [u] ⟨us, rfl⟩ u.key)
    · rw [herror]
      exact .inl ⟨rfl, t.bucket u.key, hfull.trans_lt (h.listLen_lt_card hmem us)⟩
    · rw [hok, ← hkept.tblListLen, ← hkept.bucket]
      apply ih h₁
      · rwa [hkept.entryTo]
      · intro b i hi hzero hkey
        obtain ⟨heq, hstamp₁⟩ | ⟨hi', heq⟩ := hkept.entries b i hi
        · rw [heq] at hkey
          rw [hstamp₁] at hzero
          obtain ⟨v, hv, hvkey⟩ := List.mem_map.mp hkey
          exact hts.1 v hv hzero hvkey
        · rw [heq] at hzero hkey
          exact hstamp b i hi' hzero (List.mem_cons_of_mem _ hkey)
      · exact hts.2
      · intro l' hl' key
        have hle := hfit (u :: l') (List.cons_prefix_cons.mpr ⟨rfl, hl'⟩) key
        rwa [List.append_assoc, List.singleton_append]

end Inv

/-- The table is empty at first, so the invariant holds after all updates. -/
theorem updateAll_init {t₀ : KeyTable T} {n size len : ℕ} {entryTo : T}
    {hash scale hardner : UInt64} (hinit : init n size len entryTo hash scale hardner = some t₀)
    (hto : (entryTo == -1) = true)
    (hts : us.Pairwise fun u v => (u.ts == 0) = true → v.key ≠ u.key)
    (hfit : ∀ l, l <+: us → ∀ key, -2 ^ 31 ≤ total l key ∧ total l key < 2 ^ 31) :
    (t₀.updateAll us = .error .exhausted ∧ ∃ b, t₀.tblListLen <
        ((us.map Update.key).toFinset.filter fun key => t₀.bucket key = b).card) ∨
      ∃ t, t₀.updateAll us = .ok t ∧ t.Inv us := by
  obtain ⟨h₀, rfl, hempty⟩ := inv_init hinit
  have hstamp (b i : ℕ) (hi : i < t₀.listLen b) (_ : ((t₀.list b i).newTs == 0) = true) :
      (t₀.list b i).key ∉ us.map Update.key := by
    rw [hempty] at hi
    exact absurd hi (Nat.not_lt_zero i)
  exact h₀.updateAll hto hstamp hts hfit

/-- No list is exhausted as long as none has more keys than entries. -/
theorem updateAll_ne_exhausted {t₀ : KeyTable T} {n size len : ℕ} {entryTo : T}
    {hash scale hardner : UInt64} (hinit : init n size len entryTo hash scale hardner = some t₀)
    (hto : (entryTo == -1) = true)
    (hts : us.Pairwise fun u v => (u.ts == 0) = true → v.key ≠ u.key)
    (hfit : ∀ l, l <+: us → ∀ key, -2 ^ 31 ≤ total l key ∧ total l key < 2 ^ 31)
    (hcard : ∀ b, ((us.map Update.key).toFinset.filter fun key => t₀.bucket key = b).card ≤
      t₀.tblListLen) :
    t₀.updateAll us ≠ .error .exhausted := by
  obtain ⟨-, b, hb⟩ | ⟨t, hok, -⟩ := updateAll_init hinit hto hts hfit
  · exact absurd (hcard b) hb.not_ge
  · rw [hok]
    exact nofun

/-- With timeouts disabled, as long as no list is exhausted, no key is updated again after an
update of it at time 0, and the sums fit into 32 bits, the table counts exactly. -/
theorem key_table_counts {t₀ : KeyTable T} {n size len : ℕ} {entryTo : T}
    {hash scale hardner : UInt64} (hinit : init n size len entryTo hash scale hardner = some t₀)
    (hto : (entryTo == -1) = true) (hroom : t₀.updateAll us ≠ .error .exhausted)
    (hts : us.Pairwise fun u v => (u.ts == 0) = true → v.key ≠ u.key)
    (hfit : ∀ l, l <+: us → ∀ key, -2 ^ 31 ≤ total l key ∧ total l key < 2 ^ 31) :
    ∃ t, t₀.updateAll us = .ok t ∧
      (∀ key ∈ us.map Update.key,
        ∃! p : ℕ × ℕ, p.2 < t.listLen p.1 ∧ (t.list p.1 p.2).key = key) ∧
      (∀ b i, i < t.listLen b → (t.list b i).key ∈ us.map Update.key ∧
        (t.list b i).size = total us (t.list b i).key) ∧
      t.numKey = (us.map Update.key).toFinset.card ∧
      t.keyTblNumKey = (us.map Update.key).toFinset.card ∧
      (t.getAll.map Prod.fst).Nodup ∧
      ∀ key size, (key, size) ∈ t.getAll ↔ key ∈ us.map Update.key ∧ size = total us key := by
  obtain ⟨herror, -⟩ | ⟨t, hok, h⟩ := updateAll_init hinit hto hts hfit
  · exact absurd herror hroom
  refine ⟨t, hok, ?_, ?_, h.numKey, h.sum.symm.trans h.numKey, h.getAll⟩
  · intro key hkey
    obtain ⟨i, hi, heq⟩ := (h.keys key).mp hkey
    refine ⟨(t.bucket key, i), ⟨hi, heq⟩, ?_⟩
    rintro ⟨b, j⟩ ⟨hj, rfl⟩
    have hb := h.home b j hj
    rw [hb] at hi heq ⊢
    rw [h.unique b i j hi hj heq]
  · intro b i hi
    refine ⟨(h.keys _).mpr ?_, h.sizes b i hi⟩
    rw [h.home b i hi]
    exact ⟨i, hi, rfl⟩

theorem key_table_counts_two :
    ∃ t₀ t : KeyTable ℤ, init 8 2 2 (-1) 5 7 9 = some t₀ ∧
      t₀.updateAll [⟨[1], 5, -1⟩, ⟨[2], 6, -1⟩, ⟨[1], 7, -1⟩] = .ok t ∧
      t.numKey = 2 ∧ ([1], 12) ∈ t.getAll := by
  set us : List (Update ℤ) := [⟨[1], 5, -1⟩, ⟨[2], 6, -1⟩, ⟨[1], 7, -1⟩] with hus
  obtain ⟨t₀, hinit, hlen⟩ : ∃ t₀ : KeyTable ℤ, init 8 2 2 (-1) 5 7 9 = some t₀ ∧
      t₀.tblListLen = 2 := ⟨_, rfl, rfl⟩
  have hts : us.Pairwise fun u v => (u.ts == 0) = true → v.key ≠ u.key := by decide
  have hfit (l : List (Update ℤ)) (hl : l <+: us) (key : List UInt8) :
      -2 ^ 31 ≤ total l key ∧ total l key < 2 ^ 31 := by
    rw [← List.mem_inits, hus] at hl
    simp only [List.inits, List.map_cons, List.map_nil, List.mem_cons, List.not_mem_nil,
      or_false] at hl
    obtain rfl | hl := hl
    · norm_num [total]
    · obtain rfl | rfl | rfl := hl <;>
        simp only [total, List.map_cons, List.map_nil, tally_cons, tally_nil] <;>
        split_ifs <;> norm_num
  have hroom := updateAll_ne_exhausted hinit rfl hts hfit fun b =>
    (Finset.card_filter_le _ _).trans (hlen ▸ by decide)
  obtain ⟨t, hok, -, -, hnum, -, -, hall⟩ := key_table_counts hinit rfl hroom hts hfit
  exact ⟨t₀, t, hinit, hok, hnum, (hall [1] 12).mpr (by decide)⟩

/-- An entry whose last update was at time 0 is taken for a new one, and a size has 32 bits. -/
theorem key_table_miscounts :
    ((init 8 2 2 (-1 : ℤ) 5 7 9).map fun t =>
        (t.updateAll [⟨[1], 5, 0⟩, ⟨[1], 7, 0⟩]).toOption.map getAll) = some (some [([1], 7)]) ∧
      total [⟨[1], 5, (0 : ℤ)⟩, ⟨[1], 7, 0⟩] [1] = 12 ∧
      ((init 8 2 2 (-1 : ℤ) 5 7 9).map fun t =>
        match t.updateAll [⟨[1], 2147483647, -1⟩, ⟨[1], 1, -1⟩] with
        | .error f => some f
        | .ok _ => none) = some (some .overflow) := by
  decide +kernel

end

end KeyTable

end P4Survey.SketchLearn
