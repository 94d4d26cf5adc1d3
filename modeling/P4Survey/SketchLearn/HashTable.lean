import P4Survey.Lib.Memory
import P4Survey.Lib.Loop
import P4Survey.Lib.Words
import P4Survey.SketchLearn.Counters
import P4Survey.SketchLearn.Primes

/-! # The hash table

`hash_table.c`: the entries are in a pool whose order is fixed by one list, of which a first
part is in use, and each entry in use is linked in the row of its hash value as well. Pointers
are indices of the pool. Keys and values are the bytes of them that are used.
-/

namespace P4Survey.SketchLearn

open Lib

structure HashEntry where
  key : List UInt8
  keyLen : ℕ
  value : List UInt8
  valueLen : ℕ
  belong : ℤ
  prev : Option ℕ
  next : Option ℕ
  gprev : Option ℕ
  gnext : Option ℕ

/-- What `hashtable_init` is given, and the seeds it draws. An entry has 13 bytes for a key and
24 for a value. -/
structure HashParams where
  maxSize : ℕ
  keyLen : ℕ
  valueLen : ℕ
  hash : UInt64
  scale : UInt64
  hardner : UInt64
  keyFits : keyLen ≤ 13
  valueFits : valueLen ≤ 24

structure HashTable where
  params : HashParams
  numList : ℕ
  hashList : ℕ → Option ℕ
  pool : ℕ → HashEntry
  ghead : Option ℕ
  gtail : Option ℕ
  freeEntry : Option ℕ
  curNumEntry : ℕ

/-- `hashtable_init_fcn`, and `hashtable_reset_fcn` with the same body. -/
def HashEntry.clear (e : HashEntry) : HashEntry :=
  { e with key := List.replicate e.keyLen 0, value := List.replicate e.valueLen 0 }

/-- The entries as `hashtable_init` leaves them. -/
def HashParams.entry (P : HashParams) (i : ℕ) : HashEntry where
  key := List.replicate P.keyLen 0
  keyLen := P.keyLen
  value := List.replicate P.valueLen 0
  valueLen := P.valueLen
  belong := -1
  prev := none
  next := none
  gprev := if i = 0 then none else some (i - 1)
  gnext := if i = P.maxSize - 1 then none else some (i + 1)

namespace HashTable

/-- `exit` because no entry is free, a walk that does not end, or an access outside of an
array. -/
inductive Fault where
  | exhausted | endless | outside
  deriving DecidableEq

/-- The number of lists is of type `int`. One that is not positive cannot be allocated, and the
program exits. -/
def init (P : HashParams) : Option HashTable :=
  (calcNextPrime P.maxSize).bind fun p =>
    if 0 < int32 (p * 7) then
      some
        { params := P
          numList := (int32 (p * 7)).toNat
          hashList := fun _ => none
          pool := P.entry
          ghead := some 0
          gtail := some (P.maxSize - 1)
          freeEntry := some 0
          curNumEntry := 0 }
    else none

variable (t : HashTable)

/-- `hashtable_hash_fcn` returns an `unsigned int`. -/
def hashFcn (key : List UInt8) : ℕ :=
  (awareHash key t.params.hash t.params.scale t.params.hardner).toNat % 2 ^ 32

def bucket (key : List UInt8) : ℕ := t.hashFcn key % t.numList

def linkNode (entry : ℕ) : HashTable :=
  if (t.pool entry).belong = -1 then t
  else
    let index := (t.pool entry).belong.toNat
    match t.hashList index with
    | some head =>
      let pool := Function.update t.pool entry { t.pool entry with prev := none, next := some head }
      { t with
        pool := Function.update pool head { pool head with prev := some entry }
        hashList := Function.update t.hashList index (some entry) }
    | none =>
      { t with
        pool := Function.update t.pool entry { t.pool entry with prev := none, next := none }
        hashList := Function.update t.hashList index (some entry) }

def getFreeNode : Except Fault (HashTable × ℕ) :=
  match t.freeEntry with
  | none => .error .exhausted
  | some h => .ok
      ({ t with
        freeEntry := (t.pool h).gnext
        pool := Function.update t.pool h (t.pool h).clear }, h)

/-- A row cannot have more entries than the pool. -/
def findEntry (key : List UInt8) : Except Fault (Option ℕ) :=
  match firstAlong (fun h => (t.pool h).next) (fun h => (t.pool h).key = key) t.params.maxSize
    (t.hashList (t.bucket key)) with
  | none => .error .endless
  | some found => .ok found

/-- The rest of `hashtable_find` once there is an entry for a new key. -/
def create (entry : ℕ) (key : List UInt8) : HashTable :=
  let t' := linkNode
    { t with
      pool := Function.update t.pool entry
        { t.pool entry with key := key, belong := t.bucket key } } entry
  { t' with curNumEntry := t'.curNumEntry + 1 }

def find (key : List UInt8) (isCreate : Bool) : Except Fault (HashTable × Option ℕ) :=
  (t.findEntry key).bind fun found =>
    match found with
    | some h => .ok (t, some h)
    | none =>
      if isCreate then t.getFreeNode.map fun (t, h) => (t.create h key, some h) else .ok (t, none)

/-- The last entry that is in use. -/
def lastUsed : Option ℕ :=
  match t.freeEntry with
  | none => t.gtail
  | some h => (t.pool h).gprev

def resetLoop : ℕ → Option ℕ → (ℕ → HashEntry) → Except Fault (ℕ → HashEntry)
  | _, none, pool => .ok pool
  | 0, some _, _ => .error .endless
  | fuel + 1, some h, pool =>
    resetLoop fuel (pool h).gprev
      (Function.update pool h { (pool h).clear with belong := -1, prev := none, next := none })

def reset : Except Fault HashTable :=
  (resetLoop t.params.maxSize t.lastUsed t.pool).map fun pool =>
    { t with pool := pool, freeEntry := t.ghead, curNumEntry := 0, hashList := fun _ => none }

/-- An entry of an array that was not written. -/
def zeroEntry : HashEntry := ⟨[], 0, [], 0, 0, none, none, none, none⟩

/-- The loop of `hashtable_get_all`, which has room for some more entries. -/
def getAllLoop (pool : ℕ → HashEntry) : ℕ → Option ℕ → ℕ → Except Fault (List HashEntry)
  | _, none, room => .ok (List.replicate room zeroEntry)
  | 0, some _, _ => .error .endless
  | _ + 1, some _, 0 => .error .outside
  | fuel + 1, some h, room + 1 => (getAllLoop pool fuel (pool h).gprev room).map (pool h :: ·)

def getAll : Except Fault (List HashEntry) :=
  getAllLoop t.pool t.params.maxSize t.lastUsed t.curNumEntry

/-- What a program does with a table. A value is written through the pointer that
`hashtable_find` returns for a key. -/
inductive Op where
  | find (key : List UInt8) (isCreate : Bool)
  | write (key value : List UInt8)
  | getAll
  | reset
  deriving DecidableEq

def step : Op → Except Fault HashTable
  | .find key isCreate => (t.find key isCreate).map Prod.fst
  | .write key value => (t.find key false).map fun (t, found) =>
    match found with
    | none => t
    | some h => { t with pool := Function.update t.pool h { t.pool h with value := value } }
  | .getAll => t.getAll.map fun _ => t
  | .reset => t.reset

def run (t : HashTable) : List Op → Except Fault HashTable
  | [] => .ok t
  | a :: l => (t.step a).bind fun t => t.run l

end HashTable

/-- What an operation does to the map: the keys are in the order in which they were created,
each with the value that was written last. -/
def mapStep (valueLen : ℕ) (d : List (List UInt8 × List UInt8)) :
    HashTable.Op → List (List UInt8 × List UInt8)
  | .find key true => if key ∈ d.map Prod.fst then d else d ++ [(key, List.replicate valueLen 0)]
  | .find _ false => d
  | .write key value => d.map fun e => if e.1 = key then (key, value) else e
  | .getAll => d
  | .reset => []

def contents (valueLen : ℕ) (l : List HashTable.Op) : List (List UInt8 × List UInt8) :=
  l.foldl (mapStep valueLen) []

section

variable {valueLen : ℕ} {d : List (List UInt8 × List UInt8)} {key : List UInt8}

theorem map_fst_mapStep_write (value : List UInt8) :
    (mapStep valueLen d (.write key value)).map Prod.fst = d.map Prod.fst := by
  rw [mapStep, List.map_map]
  apply List.map_congr_left
  intro e _
  rw [Function.comp_apply]
  split_ifs with he
  · exact he.symm
  · rfl

theorem mapStep_write_of_notMem (hkey : key ∉ d.map Prod.fst) (value : List UInt8) :
    mapStep valueLen d (.write key value) = d := by
  rw [mapStep]
  refine (List.map_congr_left fun e he => ?_).trans (List.map_id d)
  have hne : ¬e.1 = key := fun heq => hkey (heq ▸ List.mem_map_of_mem he)
  rw [if_neg hne, id]

theorem mapStep_find_of_notMem (hkey : key ∉ d.map Prod.fst) :
    mapStep valueLen d (.find key true) = d ++ [(key, List.replicate valueLen 0)] := by
  rw [mapStep, if_neg hkey]

theorem nodup_mapStep (h : (d.map Prod.fst).Nodup) (op : HashTable.Op) :
    ((mapStep valueLen d op).map Prod.fst).Nodup := by
  cases op with
  | find key isCreate =>
    cases isCreate with
    | false => exact h
    | true =>
      by_cases hkey : key ∈ d.map Prod.fst
      · rw [mapStep, if_pos hkey]
        exact h
      · rw [mapStep_find_of_notMem hkey, List.map_append, List.map_singleton]
        refine List.nodup_append.mpr ⟨h, List.nodup_singleton _, ?_⟩
        rintro a ha b hb rfl
        rw [List.mem_singleton.mp hb] at ha
        exact hkey ha
  | write key value =>
    rw [map_fst_mapStep_write]
    exact h
  | getAll => exact h
  | reset => exact List.nodup_nil

end

namespace HashTable

variable {t t' : HashTable} {d : List (List UInt8 × List UInt8)} {key value : List UInt8} {n : ℕ}

/-- The entries in use that belong to a row, the newest first. -/
def row (t : HashTable) (b : ℕ) : List ℕ :=
  ((List.range t.curNumEntry).filter fun i => (t.pool i).belong = b).reverse

/-- The links of the pool, and the sizes of its values, stay as they are. -/
def Fixed (P : HashParams) (pool : ℕ → HashEntry) : Prop :=
  ∀ i, (pool i).valueLen = P.valueLen ∧ (pool i).gprev = (P.entry i).gprev ∧
    (pool i).gnext = (P.entry i).gnext

/-- The first entries of the pool hold the contents in their order, and each of them is in the
row of its key. -/
structure Inv (t : HashTable) (d : List (List UInt8 × List UInt8)) : Prop where
  pos : 0 < t.params.maxSize
  count : t.curNumEntry = d.length
  room : d.length ≤ t.params.maxSize
  nodup : (d.map Prod.fst).Nodup
  entries : ∀ i < d.length, d[i]? = some ((t.pool i).key, (t.pool i).value)
  belong : ∀ i < d.length, (t.pool i).belong = t.bucket (t.pool i).key
  fixed : Fixed t.params t.pool
  ghead : t.ghead = some 0
  gtail : t.gtail = some (t.params.maxSize - 1)
  free : t.freeEntry = if d.length = t.params.maxSize then none else some d.length
  rows : ∀ b, Linked (fun i => (t.pool i).next) (t.hashList b) (t.row b)

theorem mem_row {b i : ℕ} : i ∈ t.row b ↔ i < t.curNumEntry ∧ (t.pool i).belong = b := by
  simp [row]

theorem entry_gnext {P : HashParams} (hsize : 0 < P.maxSize) (i : ℕ) :
    (P.entry i).gnext = if i + 1 = P.maxSize then none else some (i + 1) := by
  change (if i = P.maxSize - 1 then none else some (i + 1)) = _
  by_cases hlast : i = P.maxSize - 1
  · rw [if_pos hlast, if_pos (by omega)]
  · rw [if_neg hlast, if_neg (by omega)]

theorem length_row_le (b : ℕ) : (t.row b).length ≤ t.curNumEntry := by
  rw [row, List.length_reverse]
  exact (List.length_filter_le _ _).trans_eq List.length_range

namespace Inv

/-- The pool has one entry for a key. -/
theorem findIdx?_eq_some (h : t.Inv d) {i : ℕ} (hi : i < d.length) (hkey : (t.pool i).key = key) :
    (d.findIdx? fun e => e.1 = key) = some i := by
  have hfst {j : ℕ} (hj : j < d.length) : (d.map Prod.fst)[j]? = some (t.pool j).key := by
    rw [List.getElem?_map, h.entries j hj, Option.map_some]
  have hget {j : ℕ} (hj : j < d.length) : d[j].1 = (t.pool j).key := by
    have hentry := h.entries j hj
    rw [List.getElem?_eq_getElem hj] at hentry
    rw [Option.some.inj hentry]
  rw [List.findIdx?_eq_some_iff_getElem]
  refine ⟨hi, decide_eq_true ((hget hi).trans hkey), fun j hj hkeyj => ?_⟩
  have hj' : j < d.length := hj.trans hi
  have heq : (t.pool j).key = (t.pool i).key :=
    ((hget hj').symm.trans (of_decide_eq_true hkeyj)).trans hkey.symm
  have hidx : (d.map Prod.fst)[j]? = (d.map Prod.fst)[i]? := by rw [hfst hj', hfst hi, heq]
  rw [List.getElem?_inj (by rwa [List.length_map]) h.nodup] at hidx
  exact hj.ne hidx

theorem exists_index (h : t.Inv d) (hkey : key ∈ d.map Prod.fst) :
    ∃ i < d.length, (t.pool i).key = key := by
  obtain ⟨e, he, rfl⟩ := List.mem_map.mp hkey
  obtain ⟨i, hi⟩ := List.mem_iff_getElem?.mp he
  have hlt : i < d.length := (List.getElem?_eq_some_iff.mp hi).1
  refine ⟨i, hlt, ?_⟩
  rw [h.entries i hlt] at hi
  rw [← Option.some.inj hi]

theorem findEntry_eq (h : t.Inv d) (key : List UInt8) :
    t.findEntry key = .ok (d.findIdx? fun e => e.1 = key) := by
  have hlen : (t.row (t.bucket key)).length ≤ t.params.maxSize :=
    (length_row_le _).trans (h.count.le.trans h.room)
  rw [findEntry, (h.rows _).firstAlong _ hlen]
  dsimp only
  congr 1
  cases hfind : (t.row (t.bucket key)).find? fun i => decide ((t.pool i).key = key) with
  | some i =>
    have hi := (mem_row.mp (List.mem_of_find?_eq_some hfind)).1
    have hkey := List.find?_some hfind
    rw [h.count] at hi
    exact (h.findIdx?_eq_some hi (of_decide_eq_true hkey)).symm
  | none =>
    -- an entry with the key would be in the row of the key
    symm
    rw [List.findIdx?_eq_none_iff]
    intro e he
    refine decide_eq_false fun hkey => ?_
    obtain ⟨i, hlt, hpool⟩ := h.exists_index (List.mem_map.mpr ⟨e, he, hkey⟩)
    refine List.find?_eq_none.mp hfind i (mem_row.mpr ⟨h.count ▸ hlt, ?_⟩) (decide_eq_true hpool)
    rw [h.belong i hlt, hpool]

end Inv

/-- A node becomes the first of its row, and of the other nodes only `prev` changes. -/
theorem linkNode_eq {b : ℕ} (hbelong : (t.pool n).belong = b) (hne : t.hashList b ≠ some n) :
    ∃ pool, t.linkNode n =
        { t with pool := pool, hashList := Function.update t.hashList b (some n) } ∧
      pool n = { t.pool n with prev := none, next := t.hashList b } ∧
      ∀ i ≠ n, ∃ p, pool i = { t.pool i with prev := p } := by
  have hindex : ¬(t.pool n).belong = -1 := by omega
  rw [linkNode, if_neg hindex, hbelong, Int.toNat_natCast]
  dsimp only
  cases hlist : t.hashList b with
  | none =>
    refine ⟨_, rfl, Function.update_self .., fun i hi => ⟨(t.pool i).prev, ?_⟩⟩
    rw [Function.update_of_ne hi]
  | some head =>
    have hhead : head ≠ n := fun heq => hne (heq ▸ hlist)
    refine ⟨_, rfl, ?_, fun i hi => ?_⟩
    · rw [Function.update_of_ne hhead.symm, Function.update_self]
    · by_cases hi' : i = head
      · subst hi'
        exact ⟨some n, by rw [Function.update_self, Function.update_of_ne hi]⟩
      · exact ⟨(t.pool i).prev, by rw [Function.update_of_ne hi', Function.update_of_ne hi]⟩

namespace Inv

theorem lt_of_hashList (h : t.Inv d) {b i : ℕ} (hi : t.hashList b = some i) : i < d.length := by
  have hrow := h.rows b
  cases hlist : t.row b with
  | nil =>
    rw [hlist] at hrow
    exact absurd (hi.symm.trans hrow) nofun
  | cons j l =>
    rw [hlist] at hrow
    have hmem : i ∈ t.row b := by
      rw [hlist, Option.some.inj (hi.symm.trans hrow.1)]
      exact List.mem_cons_self
    exact h.count ▸ (mem_row.mp hmem).1

/-- A new key gets the first free entry. -/
theorem getFreeNode_create (h : t.Inv d) (hroom : d.length < t.params.maxSize)
    (key : List UInt8) :
    ∃ pool, (t.getFreeNode.map fun r => (r.1.create r.2 key, some r.2)) =
        .ok ({ t with
          pool := pool
          hashList := Function.update t.hashList (t.bucket key) (some d.length)
          freeEntry := (t.pool d.length).gnext
          curNumEntry := d.length + 1 }, some d.length) ∧
      pool d.length = { t.pool d.length with
        key := key
        value := List.replicate t.params.valueLen 0
        belong := t.bucket key
        prev := none
        next := t.hashList (t.bucket key) } ∧
      ∀ i ≠ d.length, ∃ p, pool i = { t.pool i with prev := p } := by
  have hfree : t.freeEntry = some d.length := by rw [h.free, if_neg hroom.ne]
  rw [getFreeNode, hfree]
  set t₁ : HashTable := { t with
    freeEntry := (t.pool d.length).gnext
    pool := Function.update t.pool d.length (t.pool d.length).clear } with ht₁
  set t₂ : HashTable := { t₁ with
    pool := Function.update t₁.pool d.length
      { t₁.pool d.length with key := key, belong := t₁.bucket key } } with ht₂
  have hself : t₂.pool d.length =
      { (t.pool d.length).clear with key := key, belong := t.bucket key } := by
    simp only [ht₂, ht₁, Function.update_self]
    rfl
  have hother {i : ℕ} (hi : i ≠ d.length) : t₂.pool i = t.pool i := by
    simp only [ht₂, ht₁, Function.update_of_ne hi]
  obtain ⟨pool, hlink, hnew, hold⟩ : ∃ pool, t₂.linkNode d.length = _ ∧ _ ∧ _ :=
    linkNode_eq (by rw [hself]) fun hi => (h.lt_of_hashList hi).ne rfl
  refine ⟨pool, ?_, ?_, ?_⟩
  · change Except.ok (t₁.create d.length key, some d.length) = _
    have hcount : t₂.curNumEntry = d.length := h.count
    rw [create, ← ht₂, hlink]
    dsimp only
    rw [hcount]
  · rw [hnew, hself, ← (h.fixed d.length).1]
    rfl
  · intro i hi
    obtain ⟨p, hp⟩ := hold i hi
    exact ⟨p, by rw [hp, hother hi]⟩

theorem row_congr (hcount : t'.curNumEntry = t.curNumEntry)
    (hbelong : ∀ i, (t'.pool i).belong = (t.pool i).belong) (b : ℕ) : t'.row b = t.row b := by
  simp only [row, hcount, hbelong]

/-- The row of a new key begins with its entry, and no other row changes. -/
theorem row_insert (hcount : t'.curNumEntry = t.curNumEntry + 1)
    (hold : ∀ i < t.curNumEntry, (t'.pool i).belong = (t.pool i).belong) {b : ℕ}
    (hnew : (t'.pool t.curNumEntry).belong = b) (b' : ℕ) :
    t'.row b' = if b' = b then t.curNumEntry :: t.row b' else t.row b' := by
  have hfilter : (List.range t.curNumEntry).filter (fun i => (t'.pool i).belong = b') =
      (List.range t.curNumEntry).filter (fun i => (t.pool i).belong = b') := by
    apply List.filter_congr
    intro i hi
    rw [hold i (List.mem_range.mp hi)]
  rw [row, row, hcount, List.range_succ, List.filter_append, List.reverse_append, hfilter]
  by_cases hb : b' = b
  · have htest : decide ((t'.pool t.curNumEntry).belong = b') = true :=
      decide_eq_true (by rw [hnew, hb])
    rw [if_pos hb, List.filter_cons, htest]
    rfl
  · have htest : decide ((t'.pool t.curNumEntry).belong = b') = false :=
      decide_eq_false (by rw [hnew]; omega)
    rw [if_neg hb, List.filter_cons, htest]
    rfl

theorem linked_insert (h : t.Inv d) {pool : ℕ → HashEntry}
    (hbelong : (pool d.length).belong = t.bucket key)
    (hnext : (pool d.length).next = t.hashList (t.bucket key))
    (hold : ∀ i < d.length, (pool i).belong = (t.pool i).belong ∧ (pool i).next = (t.pool i).next)
    (b : ℕ) :
    Linked (fun i => (pool i).next)
      (Function.update t.hashList (t.bucket key) (some d.length) b)
      (HashTable.row { t with pool := pool, curNumEntry := d.length + 1 } b) := by
  have hrow : Linked (fun i => (pool i).next) (t.hashList b) (t.row b) :=
    (h.rows b).congr fun i hi => (hold i (h.count ▸ (mem_row.mp hi).1)).2
  rw [row_insert (t := t) (by rw [h.count]) (fun i hi => (hold i (h.count ▸ hi)).1)
    (by rw [h.count]; exact hbelong)]
  by_cases hb : b = t.bucket key
  · rw [if_pos hb, hb, Function.update_self, h.count]
    refine ⟨rfl, ?_⟩
    dsimp only
    rw [hnext, ← hb]
    exact hrow
  · rw [if_neg hb, Function.update_of_ne hb]
    exact hrow

/-- The entry of a new key, linked into its row, keeps the invariant. -/
theorem insert (h : t.Inv d) (hroom : d.length < t.params.maxSize) (hkey : key ∉ d.map Prod.fst)
    {pool : ℕ → HashEntry}
    (hnew : pool d.length = { t.pool d.length with
      key := key
      value := List.replicate t.params.valueLen 0
      belong := t.bucket key
      prev := none
      next := t.hashList (t.bucket key) })
    (hold : ∀ i ≠ d.length, ∃ p, pool i = { t.pool i with prev := p }) :
    Inv { t with
      pool := pool
      hashList := Function.update t.hashList (t.bucket key) (some d.length)
      freeEntry := (t.pool d.length).gnext
      curNumEntry := d.length + 1 } (d ++ [(key, List.replicate t.params.valueLen 0)]) := by
  have hold' {i : ℕ} (hi : i < d.length) : ∃ p, pool i = { t.pool i with prev := p } :=
    hold i hi.ne
  refine
    { pos := h.pos
      count := by rw [List.length_append, List.length_singleton]
      room := by rw [List.length_append, List.length_singleton]; exact hroom
      nodup := ?_
      entries := ?_
      belong := ?_
      fixed := ?_
      ghead := h.ghead
      gtail := h.gtail
      free := ?_
      rows := ?_ }
  · rw [← mapStep_find_of_notMem hkey]
    exact nodup_mapStep h.nodup _
  · intro i hi
    rw [List.length_append, List.length_singleton] at hi
    obtain hlt | rfl := Nat.lt_succ_iff_lt_or_eq.mp hi
    · obtain ⟨p, hp⟩ := hold' hlt
      rw [List.getElem?_append_left hlt, h.entries i hlt]
      dsimp only
      rw [hp]
    · rw [List.getElem?_concat_length]
      dsimp only
      rw [hnew]
  · intro i hi
    rw [List.length_append, List.length_singleton] at hi
    obtain hlt | rfl := Nat.lt_succ_iff_lt_or_eq.mp hi
    · obtain ⟨p, hp⟩ := hold' hlt
      dsimp only
      rw [hp]
      exact h.belong i hlt
    · dsimp only
      rw [hnew]
      rfl
  · intro i
    by_cases hi : i = d.length
    · subst hi
      dsimp only
      rw [hnew]
      exact h.fixed _
    · obtain ⟨p, hp⟩ := hold i hi
      dsimp only
      rw [hp]
      exact h.fixed i
  · dsimp only
    rw [(h.fixed _).2.2, List.length_append, List.length_singleton, entry_gnext h.pos]
  · have hbelong : (pool d.length).belong = t.bucket key := by rw [hnew]
    have hnext : (pool d.length).next = t.hashList (t.bucket key) := by rw [hnew]
    refine h.linked_insert hbelong hnext fun i hi => ?_
    obtain ⟨p, hp⟩ := hold' hi
    dsimp only
    rw [hp]
    exact ⟨rfl, rfl⟩

theorem find_eq (h : t.Inv d) (key : List UInt8) :
    t.find key false = .ok (t, d.findIdx? fun e => e.1 = key) := by
  rw [find, h.findEntry_eq key]
  cases d.findIdx? fun e => e.1 = key <;> rfl

theorem findIdx?_eq_none (hkey : key ∉ d.map Prod.fst) : (d.findIdx? fun e => e.1 = key) = none := by
  rw [List.findIdx?_eq_none_iff]
  exact fun e he => decide_eq_false fun heq => hkey (heq ▸ List.mem_map_of_mem he)

theorem find_create (h : t.Inv d) (hroom : (mapStep t.params.valueLen d (.find key true)).length ≤
    t.params.maxSize) :
    ∃ t' i, t.find key true = .ok (t', some i) ∧ t'.params = t.params ∧
      t'.Inv (mapStep t.params.valueLen d (.find key true)) := by
  by_cases hkey : key ∈ d.map Prod.fst
  · obtain ⟨i, hlt, hpool⟩ := h.exists_index hkey
    refine ⟨t, i, ?_, rfl, ?_⟩
    · rw [find, h.findEntry_eq, h.findIdx?_eq_some hlt hpool]
      rfl
    · rw [mapStep, if_pos hkey]
      exact h
  · rw [mapStep_find_of_notMem hkey, List.length_append, List.length_singleton] at hroom
    obtain ⟨pool, hcreate, hnew, hold⟩ := h.getFreeNode_create hroom key
    rw [mapStep_find_of_notMem hkey]
    refine ⟨_, d.length, ?_, ?_, h.insert hroom hkey hnew hold⟩
    · rw [find, h.findEntry_eq, findIdx?_eq_none hkey]
      exact hcreate
    · rfl

/-- The entry of a key is written. -/
theorem write (h : t.Inv d) {i : ℕ} (hi : i < d.length) (hkey : (t.pool i).key = key)
    (value : List UInt8) :
    Inv { t with pool := Function.update t.pool i { t.pool i with value := value } }
      (mapStep t.params.valueLen d (.write key value)) := by
  set pool := Function.update t.pool i { t.pool i with value := value } with hpool
  have hself : pool i = { t.pool i with value := value } := by rw [hpool, Function.update_self]
  have hother {j : ℕ} (hj : j ≠ i) : pool j = t.pool j := by rw [hpool, Function.update_of_ne hj]
  have hkeep (j : ℕ) : ∃ v, pool j = { t.pool j with value := v } := by
    by_cases hj : j = i
    · exact ⟨value, hj ▸ hself⟩
    · exact ⟨(t.pool j).value, hother hj⟩
  have hlen : (mapStep t.params.valueLen d (.write key value)).length = d.length :=
    List.length_map _
  refine
    { pos := h.pos
      count := h.count.trans hlen.symm
      room := hlen.trans_le h.room
      nodup := nodup_mapStep h.nodup _
      entries := ?_
      belong := ?_
      fixed := ?_
      ghead := h.ghead
      gtail := h.gtail
      free := ?_
      rows := ?_ }
  · intro j hj
    rw [hlen] at hj
    rw [mapStep, List.getElem?_map, h.entries j hj, Option.map_some]
    dsimp only
    by_cases hji : j = i
    · rw [hji, hself, if_pos hkey, hkey]
    · have hne : (t.pool j).key ≠ key := by
        intro hjkey
        have hidx := (h.findIdx?_eq_some hj hjkey).symm.trans (h.findIdx?_eq_some hi hkey)
        exact hji (Option.some.inj hidx)
      rw [hother hji, if_neg hne]
  · intro j hj
    obtain ⟨v, hv⟩ := hkeep j
    dsimp only
    rw [hv]
    exact h.belong j (hlen ▸ hj)
  · intro j
    obtain ⟨v, hv⟩ := hkeep j
    dsimp only
    rw [hv]
    exact h.fixed j
  · rw [hlen]
    exact h.free
  · intro b
    have hbelong (j : ℕ) : (pool j).belong = (t.pool j).belong := by
      obtain ⟨v, hv⟩ := hkeep j
      rw [hv]
    have hrow : HashTable.row { t with pool := pool } b = t.row b :=
      row_congr (by rfl) hbelong b
    rw [hrow]
    refine (h.rows b).congr fun j _ => ?_
    obtain ⟨v, hv⟩ := hkeep j
    dsimp only
    rw [hv]

/-- The entries in use, from the last one on. -/
theorem linked_lastUsed (h : t.Inv d) :
    Linked (fun i => (t.params.entry i).gprev) t.lastUsed (List.range d.length).reverse := by
  have hlast : t.lastUsed = (t.params.entry d.length).gprev := by
    rw [lastUsed, h.free]
    by_cases hfull : d.length = t.params.maxSize
    · have hpos : ¬t.params.maxSize = 0 := h.pos.ne'
      rw [if_pos hfull]
      dsimp only
      rw [h.gtail, hfull, HashParams.entry]
      exact (if_neg hpos).symm
    · rw [if_neg hfull]
      exact (h.fixed _).2.1
  rw [hlast]
  generalize d.length = m
  induction m with
  | zero => rfl
  | succ m ih =>
    rw [List.range_succ, List.reverse_append]
    exact ⟨rfl, ih⟩

end Inv

theorem resetLoop_eq {P : HashParams} {p : Option ℕ} {l : List ℕ} {fuel : ℕ}
    {pool : ℕ → HashEntry} (hl : Linked (fun i => (P.entry i).gprev) p l) (hfuel : l.length ≤ fuel)
    (hpool : Fixed P pool) : ∃ pool', resetLoop fuel p pool = .ok pool' ∧ Fixed P pool' := by
  induction l generalizing p fuel pool with
  | nil =>
    rw [hl]
    exact ⟨pool, by rw [resetLoop], hpool⟩
  | cons i l ih =>
    cases fuel with
    | zero => exact absurd hfuel (Nat.not_succ_le_zero _)
    | succ fuel =>
      rw [hl.1, resetLoop, (hpool i).2.1]
      refine ih hl.2 (Nat.le_of_succ_le_succ hfuel) fun j => ?_
      by_cases hj : j = i
      · subst hj
        rw [Function.update_self]
        exact hpool j
      · rw [Function.update_of_ne hj]
        exact hpool j

theorem getAllLoop_eq {P : HashParams} {p : Option ℕ} {l : List ℕ} {fuel : ℕ}
    {pool : ℕ → HashEntry} (hl : Linked (fun i => (P.entry i).gprev) p l) (hfuel : l.length ≤ fuel)
    (hpool : Fixed P pool) : getAllLoop pool fuel p l.length = .ok (l.map pool) := by
  induction l generalizing p fuel with
  | nil =>
    rw [hl, getAllLoop]
    rfl
  | cons i l ih =>
    cases fuel with
    | zero => exact absurd hfuel (Nat.not_succ_le_zero _)
    | succ fuel =>
      rw [hl.1, List.length_cons, getAllLoop, (hpool i).2.1,
        ih hl.2 (Nat.le_of_succ_le_succ hfuel)]
      rfl

namespace Inv

theorem reset_eq (h : t.Inv d) : ∃ t', t.reset = .ok t' ∧ t'.params = t.params ∧ t'.Inv [] := by
  have hlen : (List.range d.length).reverse.length ≤ t.params.maxSize := by
    rw [List.length_reverse, List.length_range]
    exact h.room
  obtain ⟨pool, hpool, hfixed⟩ := resetLoop_eq h.linked_lastUsed hlen h.fixed
  rw [reset, hpool]
  refine ⟨_, rfl, rfl, ?_⟩
  exact
    { pos := h.pos
      count := rfl
      room := Nat.zero_le _
      nodup := List.nodup_nil
      entries := nofun
      belong := nofun
      fixed := hfixed
      ghead := h.ghead
      gtail := h.gtail
      free := by rw [List.length_nil, if_neg h.pos.ne]; exact h.ghead
      rows := fun _ => rfl }

theorem getAll_eq (h : t.Inv d) :
    ∃ es, t.getAll = .ok es ∧ es.map (fun e => (e.key, e.value)) = d.reverse := by
  have hlen : (List.range d.length).reverse.length = d.length := by
    rw [List.length_reverse, List.length_range]
  have hloop := getAllLoop_eq h.linked_lastUsed (hlen.trans_le h.room) h.fixed
  rw [hlen, ← h.count] at hloop
  refine ⟨_, hloop, ?_⟩
  rw [h.count, List.map_map, List.map_reverse]
  congr 1
  apply List.ext_getElem?
  intro i
  by_cases hi : i < d.length
  · rw [List.getElem?_map, List.getElem?_range hi, h.entries i hi]
    rfl
  · rw [List.getElem?_eq_none (by simpa using hi), List.getElem?_eq_none (by omega)]

theorem step (h : t.Inv d) {op : Op}
    (hroom : (mapStep t.params.valueLen d op).length ≤ t.params.maxSize) :
    ∃ t', t.step op = .ok t' ∧ t'.params = t.params ∧ t'.Inv (mapStep t.params.valueLen d op) := by
  cases op with
  | find key isCreate =>
    cases isCreate with
    | false => exact ⟨t, by rw [HashTable.step, h.find_eq]; rfl, rfl, h⟩
    | true =>
      obtain ⟨t', i, hfind, hparams, h'⟩ := h.find_create hroom
      exact ⟨t', by rw [HashTable.step, hfind]; rfl, hparams, h'⟩
  | write key value =>
    rw [HashTable.step, h.find_eq]
    by_cases hkey : key ∈ d.map Prod.fst
    · obtain ⟨i, hi, hpool⟩ := h.exists_index hkey
      rw [h.findIdx?_eq_some hi hpool]
      exact ⟨_, rfl, rfl, h.write hi hpool value⟩
    · rw [findIdx?_eq_none hkey, mapStep_write_of_notMem hkey]
      exact ⟨t, rfl, rfl, h⟩
  | getAll =>
    obtain ⟨es, hes, -⟩ := h.getAll_eq
    exact ⟨t, by rw [HashTable.step, hes]; rfl, rfl, h⟩
  | reset => exact h.reset_eq

theorem run (h : t.Inv d) {l : List Op}
    (hroom : ∀ l', l' <+: l → (l'.foldl (mapStep t.params.valueLen) d).length ≤ t.params.maxSize) :
    ∃ t', t.run l = .ok t' ∧ t'.Inv (l.foldl (mapStep t.params.valueLen) d) := by
  induction l generalizing t d with
  | nil => exact ⟨t, rfl, h⟩
  | cons op l ih =>
    have hop : [op] <+: op :: l := ⟨l, rfl⟩
    obtain ⟨t₁, hstep, hparams, h₁⟩ := h.step (hroom [op] hop)
    rw [HashTable.run, hstep, List.foldl_cons, ← hparams]
    rw [← hparams] at hroom h₁
    exact ih h₁ fun l' hl' => hroom (op :: l') (List.cons_prefix_cons.mpr ⟨rfl, hl'⟩)

end Inv

/-- The number of lists of a table that is not too large is an `int`. -/
theorem exists_init {P : HashParams} (hsize : P.maxSize ≤ 2 ^ 27) : ∃ t, init P = some t := by
  obtain ⟨p, hp, hprime, hle⟩ := calcNextPrime_eq P.maxSize
  have hpos : 0 < int32 (p * 7) := by
    rw [int32_of_fits (by omega) (by omega)]
    have := hprime.pos
    omega
  rw [init, hp, Option.bind_some, if_pos hpos]
  exact ⟨_, rfl⟩

/-- A table as it is made is empty. -/
theorem inv_init {P : HashParams} (hsize : 1 ≤ P.maxSize) (hinit : init P = some t) :
    t.params = P ∧ t.Inv [] := by
  obtain ⟨p, -, hp⟩ := Option.bind_eq_some_iff.mp hinit
  split_ifs at hp with hpos
  obtain rfl := Option.some.inj hp
  refine ⟨rfl, ?_⟩
  exact
    { pos := hsize
      count := rfl
      room := Nat.zero_le _
      nodup := List.nodup_nil
      entries := nofun
      belong := nofun
      fixed := fun i => ⟨rfl, rfl, rfl⟩
      ghead := rfl
      gtail := rfl
      free := by rw [List.length_nil, if_neg (by dsimp only; omega)]
      rows := fun _ => rfl }

/-- The key was created and there was no reset since. -/
def Created (l : List Op) (key : List UInt8) : Prop :=
  ∃ l₁ l₂, l = l₁ ++ .find key true :: l₂ ∧ .reset ∉ l₂

theorem created_concat {l : List Op} {op : Op} :
    Created (l ++ [op]) key ↔ op = .find key true ∨ op ≠ .reset ∧ Created l key := by
  constructor
  · rintro ⟨l₁, l₂, heq, hreset⟩
    obtain rfl | ⟨l₂, op', rfl⟩ := List.eq_nil_or_concat l₂
    · exact .inl (List.singleton_inj.mp (List.append_inj' heq rfl).2)
    · rw [List.concat_eq_append] at heq hreset
      rw [← List.cons_append, ← List.append_assoc] at heq
      obtain ⟨rfl, hop⟩ := List.append_inj' heq rfl
      rw [List.singleton_inj] at hop
      rw [List.mem_append, not_or, List.mem_singleton] at hreset
      exact .inr ⟨fun hnot => hreset.2 (hnot.symm.trans hop), l₁, l₂, rfl, hreset.1⟩
  · rintro (rfl | ⟨hop, l₁, l₂, rfl, hreset⟩)
    · exact ⟨l, [], rfl, List.not_mem_nil⟩
    · refine ⟨l₁, l₂ ++ [op], by rw [List.append_assoc, List.cons_append], ?_⟩
      rw [List.mem_append, List.mem_singleton]
      rintro (hmem | rfl)
      · exact hreset hmem
      · exact hop rfl

theorem contents_concat (valueLen : ℕ) (l : List Op) (op : Op) :
    contents valueLen (l ++ [op]) = mapStep valueLen (contents valueLen l) op := by
  rw [contents, List.foldl_append]
  rfl

theorem mem_contents {valueLen : ℕ} {l : List Op} :
    key ∈ (contents valueLen l).map Prod.fst ↔ Created l key := by
  induction l using List.reverseRecOn with
  | nil =>
    refine iff_of_false List.not_mem_nil ?_
    rintro ⟨l₁, l₂, heq, -⟩
    exact absurd heq (by simp)
  | append_singleton l op ih =>
    rw [contents_concat, created_concat, ← ih]
    cases op with
    | find k isCreate =>
      cases isCreate with
      | false => simp [mapStep]
      | true =>
        by_cases hk : k ∈ (contents valueLen l).map Prod.fst
        · rw [mapStep, if_pos hk]
          refine ⟨fun hkey => .inr ⟨nofun, hkey⟩, ?_⟩
          rintro (heq | ⟨-, hkey⟩)
          · injection heq with heq
            exact heq ▸ hk
          · exact hkey
        · rw [mapStep_find_of_notMem hk, List.map_append, List.map_singleton, List.mem_append,
            List.mem_singleton]
          simp [or_comm, eq_comm]
    | write k value => rw [map_fst_mapStep_write]; simp
    | getAll => simp [mapStep]
    | reset => simp [mapStep]

theorem nodup_contents (valueLen : ℕ) (l : List Op) :
    ((contents valueLen l).map Prod.fst).Nodup := by
  induction l using List.reverseRecOn with
  | nil => exact List.nodup_nil
  | append_singleton l op ih =>
    rw [contents_concat]
    exact nodup_mapStep ih op

theorem length_contents (valueLen : ℕ) (l : List Op) :
    ((contents valueLen l).length : ℕ∞) = {key | Created l key}.encard := by
  have hset : {key | Created l key} = ((contents valueLen l).map Prod.fst).toFinset := by
    ext key
    rw [List.coe_toFinset, Set.mem_ofPred_eq, Set.mem_ofPred_eq, mem_contents]
  rw [hset, Set.encard_coe_eq_coe_finsetCard,
    List.toFinset_card_of_nodup (nodup_contents valueLen l), List.length_map]

/-- The keys that are there stay at their places. -/
theorem prefix_contents (valueLen : ℕ) {l₁ l₂ : List Op} (hreset : .reset ∉ l₂) :
    (contents valueLen l₁).map Prod.fst <+: (contents valueLen (l₁ ++ l₂)).map Prod.fst := by
  induction l₂ using List.reverseRecOn with
  | nil => rw [List.append_nil]
  | append_singleton l₂ op ih =>
    rw [List.mem_append, not_or, List.mem_singleton] at hreset
    refine (ih hreset.1).trans ?_
    rw [← List.append_assoc, contents_concat]
    cases op with
    | find k isCreate =>
      cases isCreate with
      | false => exact List.prefix_rfl
      | true =>
        rw [mapStep]
        split_ifs with hk
        · exact List.prefix_rfl
        · rw [List.map_append]
          exact List.prefix_append _ _
    | write k value => rw [map_fst_mapStep_write]
    | getAll => exact List.prefix_rfl
    | reset => exact absurd rfl hreset.2

theorem findIdx?_of_prefix {d' : List (List UInt8 × List UInt8)}
    (hc : d.map Prod.fst <+: d'.map Prod.fst) {i : ℕ}
    (hidx : (d.findIdx? fun e => e.1 = key) = some i) :
    (d'.findIdx? fun e => e.1 = key) = some i := by
  have hmap (d : List (List UInt8 × List UInt8)) :
      (d.findIdx? fun e => e.1 = key) = (d.map Prod.fst).findIdx? fun k => k = key := by
    rw [List.findIdx?_map]
    rfl
  obtain ⟨r, hr⟩ := hc
  rw [hmap] at hidx
  rw [hmap, ← hr, List.findIdx?_append, hidx, Option.some_or]

/-- What a caller sees of a table that holds some keys with their values: each key has one
entry, which the pointer that is found for it points to, and all entries are returned, the
newest first. -/
structure Holds (t : HashTable) (d : List (List UInt8 × List UInt8)) : Prop where
  find : ∀ key, t.find key false = .ok (t, d.findIdx? fun e => e.1 = key)
  entries : ∀ i e, d[i]? = some e → (t.pool i).key = e.1 ∧ (t.pool i).value = e.2
  nodup : (d.map Prod.fst).Nodup
  getAll : ∃ es, t.getAll = .ok es ∧ es.map (fun e => (e.key, e.value)) = d.reverse
  count : t.curNumEntry = d.length

theorem Inv.holds (h : t.Inv d) : t.Holds d where
  find := h.find_eq
  entries i e hi := by
    rw [h.entries i (List.getElem?_eq_some_iff.mp hi).1] at hi
    rw [← Option.some.inj hi]
    exact ⟨rfl, rfl⟩
  nodup := h.nodup
  getAll := h.getAll_eq
  count := h.count

/-- A table that is not given more keys than it has entries between two resets is a map. -/
theorem hashtable_map {P : HashParams} (hsize : 1 ≤ P.maxSize) {t₀ : HashTable}
    (hinit : init P = some t₀) {l : List Op}
    (hl : ∀ l', l' <+: l → {key | Created l' key}.encard ≤ P.maxSize) :
    ∃ t, t₀.run l = .ok t ∧ t.Holds (contents P.valueLen l) ∧
      (∀ key, key ∈ (contents P.valueLen l).map Prod.fst ↔ Created l key) ∧
      (∀ l₁ l₂, l = l₁ ++ l₂ → .reset ∉ l₂ → ∃ t₁, t₀.run l₁ = .ok t₁ ∧
        ∀ key i, t₁.find key false = .ok (t₁, some i) → t.find key false = .ok (t, some i)) ∧
      ∃ t', t.reset = .ok t' ∧ t'.Holds [] := by
  obtain ⟨hparams, h₀⟩ := inv_init hsize hinit
  rw [← hparams] at hl ⊢
  have hroom (l' : List Op) (hl' : l' <+: l) :
      (contents t₀.params.valueLen l').length ≤ t₀.params.maxSize := by
    have hle := hl l' hl'
    rw [← length_contents t₀.params.valueLen] at hle
    exact_mod_cast hle
  obtain ⟨t, hrun, h⟩ := h₀.run hroom
  obtain ⟨t', hreset, -, h'⟩ := h.reset_eq
  refine ⟨t, hrun, h.holds, fun key => mem_contents, ?_, t', hreset, h'.holds⟩
  rintro l₁ l₂ rfl hnot
  obtain ⟨t₁, hrun₁, h₁⟩ := h₀.run fun l' hl' => hroom l' (hl'.trans (List.prefix_append _ _))
  refine ⟨t₁, hrun₁, fun key i hfind => ?_⟩
  rw [h₁.find_eq] at hfind
  have hidx := (Prod.mk.inj (Except.ok.inj hfind)).2
  rw [h.find_eq, ← contents, findIdx?_of_prefix (prefix_contents _ hnot) hidx]

/-- A table of two entries is filled, read, reset and used again. -/
theorem hashtable_map_two :
    ∃ t₀ t, init ⟨2, 1, 1, 5, 7, 9, by decide, by decide⟩ = some t₀ ∧
      t₀.run [.find [1] true, .find [2] true, .write [1] [8], .getAll, .reset, .find [3] true,
        .find [2] true, .write [2] [6]] = .ok t ∧
      t.Holds [([3], [0]), ([2], [6])] := by
  set l : List Op := [.find [1] true, .find [2] true, .write [1] [8], .getAll, .reset,
    .find [3] true, .find [2] true, .write [2] [6]]
  have hroom : ∀ l' ∈ l.inits, (contents 1 l').length ≤ 2 := by decide
  obtain ⟨t₀, hinit⟩ := exists_init (P := ⟨2, 1, 1, 5, 7, 9, by decide, by decide⟩) (by decide)
  obtain ⟨t, hrun, hholds, -⟩ := hashtable_map (l := l) (by decide) hinit fun l' hl' => by
    rw [← length_contents 1]
    exact_mod_cast hroom l' ((List.mem_inits l' l).mpr hl')
  exact ⟨t₀, t, hinit, hrun, hholds⟩

end HashTable

end P4Survey.SketchLearn
