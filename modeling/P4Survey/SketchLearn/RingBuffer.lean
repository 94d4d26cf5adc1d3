import P4Survey.Lib.Memory
import P4Survey.Lib.System

/-! # The ring buffer of SketchLearn

One producer and one consumer share a buffer of `rbSize` tuples. Each side keeps
its own next index, publishes it once per batch, and keeps a copy of the index that
the other side has published. The positions of the indices in the stream of tuples
never decrease; the indices are these positions modulo the size.
-/

namespace P4Survey.SketchLearn
open Lib

def rbSize : ℕ := 2000
def rbBatch : ℕ := 50

structure RingBuffer where
  tupleSize : ℕ
  readIndex : ℕ
  writeIndex : ℕ
  localWriteIndex : ℕ
  nextReadIndex : ℕ
  rBatchCount : ℕ
  localReadIndex : ℕ
  nextWriteIndex : ℕ
  wBatchCount : ℕ
  data : ℕ → UInt8

def nextVal (x : ℕ) : ℕ := if rbSize ≤ x + 1 then 0 else x + 1

def createRingbuffer (tupleSize : ℕ) : RingBuffer := ⟨tupleSize, 0, 0, 0, 0, 0, 0, 0, 0, fun _ => 0⟩

namespace RingBuffer

def flushRingbuffer (rb : RingBuffer) : RingBuffer :=
  { rb with writeIndex := rb.nextWriteIndex, readIndex := rb.nextReadIndex }

/-- The second half of a write, once there is room. -/
def put (rb : RingBuffer) (data : List UInt8) : RingBuffer :=
  let rb := { rb with
    data := memcpy rb.data (rb.tupleSize * rb.nextWriteIndex) data
    nextWriteIndex := nextVal rb.nextWriteIndex
    wBatchCount := rb.wBatchCount + 1 }
  if rbBatch ≤ rb.wBatchCount then { rb with writeIndex := rb.nextWriteIndex, wBatchCount := 0 }
  else rb

/-- The buffer after the write, unless the write fails. -/
def writeRingbuffer (rb : RingBuffer) (data : List UInt8) : Option RingBuffer :=
  let afterNextWriteIndex := nextVal rb.nextWriteIndex
  if afterNextWriteIndex = rb.localReadIndex then
    if afterNextWriteIndex = rb.readIndex then none
    else some (put { rb with localReadIndex := rb.readIndex } data)
  else some (rb.put data)

/-- The second half of a read, once there is a tuple. -/
def get (rb : RingBuffer) : RingBuffer × List UInt8 :=
  let data := loadBytes rb.data (rb.nextReadIndex * rb.tupleSize) rb.tupleSize
  let rb := { rb with
    nextReadIndex := nextVal rb.nextReadIndex
    rBatchCount := rb.rBatchCount + 1 }
  (if rbBatch ≤ rb.rBatchCount then { rb with readIndex := rb.nextReadIndex, rBatchCount := 0 }
    else rb, data)

/-- The buffer after the read and the tuple, unless the read fails. -/
def readRingbuffer (rb : RingBuffer) : Option (RingBuffer × List UInt8) :=
  if rb.nextReadIndex = rb.localWriteIndex then
    if rb.nextReadIndex = rb.writeIndex then none
    else some (get { rb with localWriteIndex := rb.writeIndex })
  else some rb.get

end RingBuffer

/-- The buffer, the tuples that writes have accepted and those that reads have returned. -/
structure State where
  rb : RingBuffer
  accepted : List (List UInt8)
  returned : List (List UInt8)

inductive Call
  | write (data : List UInt8)
  | read
  | flush

namespace State

def write (s : State) (data : List UInt8) : State :=
  match s.rb.writeRingbuffer data with
  | some rb => { s with rb := rb, accepted := s.accepted ++ [data] }
  | none => s

def read (s : State) : State :=
  match s.rb.readRingbuffer with
  | some (rb, data) => { s with rb := rb, returned := s.returned ++ [data] }
  | none => s

def flush (s : State) : State := { s with rb := s.rb.flushRingbuffer }

end State

/-- Whole calls in any order. The producer writes tuples of the size the buffer was
created for. -/
def system (tupleSize : ℕ) : System State Call where
  init s := s = ⟨createRingbuffer tupleSize, [], []⟩
  enabled _
    | .write data => data.length = tupleSize
    | .read => True
    | .flush => True
  next s
    | .write data => s.write data
    | .read => s.read
    | .flush => s.flush

section Positions

/-- The positions `lr`, `rd`, `lw` and `wr` in the stream of the local read index, the
read index, the local write index and the write index. The next indices are at the
numbers of tuples returned and accepted. -/
structure Inv (tupleSize : ℕ) (s : State) (lr rd lw wr : ℕ) : Prop where
  tupleSize_eq : s.rb.tupleSize = tupleSize
  length_eq : ∀ data ∈ s.accepted, data.length = tupleSize
  localReadIndex : s.rb.localReadIndex = lr % rbSize
  readIndex : s.rb.readIndex = rd % rbSize
  nextReadIndex : s.rb.nextReadIndex = s.returned.length % rbSize
  localWriteIndex : s.rb.localWriteIndex = lw % rbSize
  writeIndex : s.rb.writeIndex = wr % rbSize
  nextWriteIndex : s.rb.nextWriteIndex = s.accepted.length % rbSize
  lr_le : lr ≤ rd
  rd_le : rd ≤ s.returned.length
  le_lw : s.returned.length ≤ lw
  lw_le : lw ≤ wr
  wr_le : wr ≤ s.accepted.length
  room : s.accepted.length < lr + rbSize
  rLag : s.returned.length ≤ rd + s.rb.rBatchCount
  rBatch : s.rb.rBatchCount < rbBatch
  wLag : s.accepted.length ≤ wr + s.rb.wBatchCount
  wBatch : s.rb.wBatchCount < rbBatch
  returned_eq : s.returned = s.accepted.take s.returned.length
  stored : ∀ k data, s.returned.length ≤ k → s.accepted[k]? = some data →
    loadBytes s.rb.data (tupleSize * (k % rbSize)) tupleSize = data

theorem nextVal_mod (k : ℕ) : nextVal (k % rbSize) = (k + 1) % rbSize := by
  unfold nextVal rbSize
  split_ifs <;> omega

/-- Positions less than a round apart have the same index only if they are equal. -/
theorem mod_eq_iff {i j : ℕ} (hle : i ≤ j) (hlt : j < i + rbSize) :
    i % rbSize = j % rbSize ↔ i = j := by
  unfold rbSize at *
  omega

namespace Inv

variable {n : ℕ} {s : State} {lr rd lw wr : ℕ}

theorem start : Inv n ⟨createRingbuffer n, [], []⟩ 0 0 0 0 := by
  constructor <;> simp [createRingbuffer, rbSize, rbBatch]

theorem flush (h : Inv n s lr rd lw wr) :
    Inv n s.flush lr s.returned.length lw s.accepted.length where
  tupleSize_eq := h.tupleSize_eq
  length_eq := h.length_eq
  localReadIndex := h.localReadIndex
  readIndex := h.nextReadIndex
  nextReadIndex := h.nextReadIndex
  localWriteIndex := h.localWriteIndex
  writeIndex := h.nextWriteIndex
  nextWriteIndex := h.nextWriteIndex
  lr_le := h.lr_le.trans h.rd_le
  rd_le := le_rfl
  le_lw := h.le_lw
  lw_le := h.lw_le.trans h.wr_le
  wr_le := le_rfl
  room := h.room
  rLag := Nat.le_add_right _ _
  rBatch := h.rBatch
  wLag := Nat.le_add_right _ _
  wBatch := h.wBatch
  returned_eq := h.returned_eq
  stored := h.stored

/-- The producer copies the read index. -/
theorem copyRead (h : Inv n s lr rd lw wr) :
    Inv n { s with rb := { s.rb with localReadIndex := s.rb.readIndex } } rd rd lw wr :=
  { h with
    localReadIndex := h.readIndex
    lr_le := le_rfl
    room := h.room.trans_le (Nat.add_le_add_right h.lr_le _) }

/-- The consumer copies the write index. -/
theorem copyWrite (h : Inv n s lr rd lw wr) :
    Inv n { s with rb := { s.rb with localWriteIndex := s.rb.writeIndex } } lr rd wr wr :=
  { h with
    localWriteIndex := h.writeIndex
    le_lw := h.le_lw.trans h.lw_le
    lw_le := le_rfl }

/-- A tuple written where there is room overwrites none that is still to be read. -/
theorem stored_put (h : Inv n s lr rd lw wr) {data : List UInt8} (hdata : data.length = n)
    (hroom : s.accepted.length + 1 < lr + rbSize) {k : ℕ} {d : List UInt8}
    (hk : s.returned.length ≤ k) (hd : (s.accepted ++ [data])[k]? = some d) :
    loadBytes (memcpy s.rb.data (n * (s.accepted.length % rbSize)) data) (n * (k % rbSize)) n = d := by
  have hlr := h.lr_le
  have hrd := h.rd_le
  rcases Nat.lt_trichotomy k s.accepted.length with hlt | heq | hgt
  · rw [List.getElem?_append_left hlt] at hd
    have hne : k % rbSize ≠ s.accepted.length % rbSize := by
      rw [Ne, mod_eq_iff hlt.le (by omega)]
      omega
    rw [loadBytes_memcpy_of_disjoint _ (by rw [hdata]; exact block_disjoint hne)]
    exact h.stored k d hk hd
  · subst k
    rw [List.getElem?_append_right le_rfl] at hd
    obtain rfl : data = d := by simpa using hd
    rw [← hdata]
    exact loadBytes_memcpy_self _ _ _
  · rw [List.getElem?_eq_none (by simp; omega)] at hd
    cases hd

/-- A write that finds room before the local read index. -/
theorem put (h : Inv n s lr rd lw wr) {data : List UInt8} (hdata : data.length = n)
    (hroom : s.accepted.length + 1 < lr + rbSize) :
    ∃ wr', Inv n ⟨s.rb.put data, s.accepted ++ [data], s.returned⟩ lr rd lw wr' := by
  have hlen : (s.accepted ++ [data]).length = s.accepted.length + 1 := List.length_append
  have hnext : nextVal s.rb.nextWriteIndex = (s.accepted ++ [data]).length % rbSize := by
    rw [h.nextWriteIndex, nextVal_mod, hlen]
  have hall : ∀ d ∈ s.accepted ++ [data], d.length = n := by
    intro d hd
    rcases List.mem_append.mp hd with hd | hd
    · exact h.length_eq d hd
    · rw [List.mem_singleton.mp hd, hdata]
  have hreturned : s.returned = (s.accepted ++ [data]).take s.returned.length := by
    rw [List.take_append_of_le_length (h.le_lw.trans (h.lw_le.trans h.wr_le))]
    exact h.returned_eq
  have hstored : ∀ k d, s.returned.length ≤ k → (s.accepted ++ [data])[k]? = some d →
      loadBytes (memcpy s.rb.data (s.rb.tupleSize * s.rb.nextWriteIndex) data) (n * (k % rbSize)) n =
        d := by
    intro k d hk hd
    rw [h.tupleSize_eq, h.nextWriteIndex]
    exact h.stored_put hdata hroom hk hd
  have hlag := h.wLag
  have hwr := h.wr_le
  by_cases hb : rbBatch ≤ s.rb.wBatchCount + 1
  · refine ⟨s.accepted.length + 1, ?_⟩
    rw [show s.rb.put data = _ from if_pos hb]
    exact { h with
      length_eq := hall
      nextWriteIndex := hnext
      writeIndex := by rw [← hlen]; exact hnext
      lw_le := h.lw_le.trans (by omega)
      wr_le := hlen.ge
      room := by rw [hlen]; exact hroom
      wLag := hlen.le
      wBatch := show 0 < rbBatch by decide
      returned_eq := hreturned
      stored := hstored }
  · refine ⟨wr, ?_⟩
    rw [show s.rb.put data = _ from if_neg hb]
    exact { h with
      length_eq := hall
      nextWriteIndex := hnext
      wr_le := by rw [hlen]; omega
      room := by rw [hlen]; exact hroom
      wLag := by rw [hlen]; change _ ≤ wr + (s.rb.wBatchCount + 1); omega
      wBatch := Nat.lt_of_not_le hb
      returned_eq := hreturned
      stored := hstored }

theorem write_eq_none_iff (h : Inv n s lr rd lw wr) (data : List UInt8) :
    s.rb.writeRingbuffer data = none ↔ s.accepted.length + 1 = rd + rbSize := by
  have hlr := h.lr_le
  have hrd := h.rd_le
  have hle := h.le_lw.trans (h.lw_le.trans h.wr_le)
  have hroom := h.room
  simp only [RingBuffer.writeRingbuffer, h.nextWriteIndex, nextVal_mod, h.localReadIndex,
    h.readIndex]
  unfold rbSize at *
  split_ifs <;> simp <;> omega

theorem write (h : Inv n s lr rd lw wr) {data : List UInt8} (hdata : data.length = n) :
    ∃ lr' wr', Inv n (s.write data) lr' rd lw wr' := by
  have hlr := h.lr_le
  have hrd := h.rd_le
  have hle := h.le_lw.trans (h.lw_le.trans h.wr_le)
  have hroom := h.room
  rw [State.write]
  simp only [RingBuffer.writeRingbuffer]
  split_ifs with hlocal hfull
  · exact ⟨lr, wr, h⟩
  · refine ⟨rd, h.copyRead.put hdata ?_⟩
    rw [h.nextWriteIndex, nextVal_mod] at hlocal hfull
    rw [h.localReadIndex] at hlocal
    rw [h.readIndex] at hfull
    change s.accepted.length + 1 < rd + rbSize
    unfold rbSize at *
    omega
  · refine ⟨lr, h.put hdata ?_⟩
    rw [h.nextWriteIndex, nextVal_mod, h.localReadIndex] at hlocal
    unfold rbSize at *
    omega

/-- A read of a tuple before the local write index returns the next tuple accepted. -/
theorem get (h : Inv n s lr rd lw wr) (hlt : s.returned.length < lw) :
    ∃ rd', Inv n ⟨s.rb.get.1, s.accepted, s.returned ++ [s.rb.get.2]⟩ lr rd' lw wr := by
  have hlen : (s.returned ++ [s.rb.get.2]).length = s.returned.length + 1 := List.length_append
  have hnext : nextVal s.rb.nextReadIndex = (s.returned ++ [s.rb.get.2]).length % rbSize := by
    rw [h.nextReadIndex, nextVal_mod, hlen]
  have hdata : s.accepted[s.returned.length]? = some s.rb.get.2 := by
    have hsome := List.getElem?_eq_getElem (hlt.trans_le (h.lw_le.trans h.wr_le))
    rw [hsome, ← h.stored _ _ le_rfl hsome, ← h.nextReadIndex, Nat.mul_comm, ← h.tupleSize_eq]
    rfl
  have hreturned : s.returned ++ [s.rb.get.2] =
      s.accepted.take (s.returned ++ [s.rb.get.2]).length := by
    rw [hlen, List.take_add_one, hdata, ← h.returned_eq]
    rfl
  have hstored : ∀ k d, (s.returned ++ [s.rb.get.2]).length ≤ k → s.accepted[k]? = some d →
      loadBytes s.rb.data (n * (k % rbSize)) n = d := by
    intro k d hk hd
    rw [hlen] at hk
    exact h.stored k d (by omega) hd
  have hlag := h.rLag
  have hrd := h.rd_le
  by_cases hb : rbBatch ≤ s.rb.rBatchCount + 1
  · refine ⟨s.returned.length + 1, ?_⟩
    rw [show s.rb.get.1 = _ from if_pos hb]
    exact { h with
      nextReadIndex := hnext
      readIndex := by rw [← hlen]; exact hnext
      lr_le := h.lr_le.trans (by omega)
      rd_le := hlen.ge
      le_lw := by rw [hlen]; exact hlt
      rLag := hlen.le
      rBatch := show 0 < rbBatch by decide
      returned_eq := hreturned
      stored := hstored }
  · refine ⟨rd, ?_⟩
    rw [show s.rb.get.1 = _ from if_neg hb]
    exact { h with
      nextReadIndex := hnext
      rd_le := by rw [hlen]; omega
      le_lw := by rw [hlen]; exact hlt
      rLag := by rw [hlen]; change _ ≤ rd + (s.rb.rBatchCount + 1); omega
      rBatch := Nat.lt_of_not_le hb
      returned_eq := hreturned
      stored := hstored }

theorem read_eq_none_iff (h : Inv n s lr rd lw wr) :
    s.rb.readRingbuffer = none ↔ s.returned.length = wr := by
  have hlr := h.lr_le
  have hrd := h.rd_le
  have hle := h.le_lw
  have hlw := h.lw_le
  have hwr := h.wr_le
  have hroom := h.room
  simp only [RingBuffer.readRingbuffer, h.nextReadIndex, h.localWriteIndex, h.writeIndex]
  unfold rbSize at *
  split_ifs <;> simp <;> omega

/-- A read fails or returns one more tuple. -/
theorem read (h : Inv n s lr rd lw wr) :
    ∃ rd' lw', Inv n s.read lr rd' lw' wr ∧
      (s.returned.length < wr → s.read.returned.length = s.returned.length + 1) := by
  have hlr := h.lr_le
  have hrd := h.rd_le
  have hle := h.le_lw
  have hlw := h.lw_le
  have hwr := h.wr_le
  have hroom := h.room
  rw [State.read]
  simp only [RingBuffer.readRingbuffer]
  split_ifs with hlocal hempty
  · refine ⟨rd, lw, h, fun hlt => ?_⟩
    rw [h.nextReadIndex, h.writeIndex, mod_eq_iff (by omega) (by omega)] at hempty
    omega
  · rw [h.nextReadIndex, h.writeIndex, mod_eq_iff (by omega) (by omega)] at hempty
    obtain ⟨rd', hget⟩ := h.copyWrite.get (show s.returned.length < wr by omega)
    exact ⟨rd', wr, hget, fun _ => List.length_append⟩
  · rw [h.nextReadIndex, h.localWriteIndex, mod_eq_iff (by omega) (by omega)] at hlocal
    obtain ⟨rd', hget⟩ := h.get (show s.returned.length < lw by omega)
    exact ⟨rd', lw, hget, fun _ => List.length_append⟩

end Inv

end Positions

section Fifo

variable {n : ℕ} {s : State}

theorem inv_of_reachable (h : (system n).Reachable s) : ∃ lr rd lw wr, Inv n s lr rd lw wr := by
  induction h with
  | init hs => exact ⟨0, 0, 0, 0, hs ▸ Inv.start⟩
  | @step s a _ ha ih =>
    obtain ⟨lr, rd, lw, wr, h⟩ := ih
    cases a with
    | write data =>
      obtain ⟨lr', wr', hw⟩ := h.write ha
      exact ⟨lr', rd, lw, wr', hw⟩
    | read =>
      obtain ⟨rd', lw', hr, -⟩ := h.read
      exact ⟨lr, rd', lw', wr, hr⟩
    | flush => exact ⟨_, _, _, _, h.flush⟩

@[simp] theorem accepted_read (s : State) : s.read.accepted = s.accepted := by
  rw [State.read]
  split <;> rfl

/-- Reads of a buffer whose tuples are all published return all of them. -/
theorem returned_of_reads {lr rd lw : ℕ} {m : ℕ} (h : Inv n s lr rd lw s.accepted.length)
    (hm : s.accepted.length = s.returned.length + m) :
    ((system n).run s (List.replicate m .read)).returned = s.accepted := by
  induction m generalizing s rd lw with
  | zero =>
    change s.returned = s.accepted
    rw [h.returned_eq, List.take_of_length_le (by omega)]
  | succ m ih =>
    obtain ⟨rd', lw', hr, hlen⟩ := h.read
    have hnext := hlen (by omega)
    rw [← accepted_read s] at hr hm
    change ((system n).run s.read (List.replicate m .read)).returned = s.accepted
    rw [ih hr (by omega), accepted_read]

/-- What reads have returned is a prefix of what writes have accepted; after a flush
the reads of the rest return all of it; a write and a read do not both fail. -/
theorem ringbuffer_fifo (h : (system n).Reachable s) :
    s.returned <+: s.accepted ∧
      ((system n).run s.flush
        (List.replicate (s.accepted.length - s.returned.length) .read)).returned = s.accepted ∧
      ∀ data, ¬(s.rb.writeRingbuffer data = none ∧ s.rb.readRingbuffer = none) := by
  obtain ⟨lr, rd, lw, wr, hinv⟩ := inv_of_reachable h
  have hle := hinv.le_lw.trans (hinv.lw_le.trans hinv.wr_le)
  refine ⟨?_, ?_, ?_⟩
  · rw [hinv.returned_eq]
    exact List.take_prefix _ _
  · exact returned_of_reads hinv.flush (by change s.accepted.length = s.returned.length + _; omega)
  · rintro data ⟨hw, hr⟩
    rw [hinv.write_eq_none_iff] at hw
    rw [hinv.read_eq_none_iff] at hr
    have hrLag := hinv.rLag
    have hrBatch := hinv.rBatch
    have hwLag := hinv.wLag
    have hwBatch := hinv.wBatch
    unfold rbSize rbBatch at *
    omega

/-- The reads of the empty buffer, of tuples that have not been published and after the last one
published are refused. -/
def refusals : List Call :=
  [.read, .write [7], .write [8], .read, .flush, .read, .read, .read, .write [9], .read]

theorem ringbuffer_fifo_flushed :
    let s := (system 1).run ⟨createRingbuffer 1, [], []⟩ refusals
    (system 1).Reachable s ∧ s.accepted = [[7], [8], [9]] ∧ s.returned = [[7], [8]] ∧
      s.rb.readRingbuffer = none ∧ s.returned <+: s.accepted ∧
      ((system 1).run s.flush
        (List.replicate (s.accepted.length - s.returned.length) .read)).returned = s.accepted ∧
      s.rb.writeRingbuffer [9] ≠ none := by
  intro s
  have hr : (system 1).Reachable s := (System.Reachable.init rfl).run
    ⟨trivial, rfl, rfl, trivial, trivial, trivial, trivial, trivial, rfl, trivial, trivial⟩
  have hread : s.rb.readRingbuffer = none := Option.isNone_iff_eq_none.mp (by decide +kernel)
  obtain ⟨hpre, hflushed, hboth⟩ := ringbuffer_fifo hr
  exact ⟨hr, by decide +kernel, by decide +kernel, hread, hpre, hflushed,
    fun hwrite => hboth [9] ⟨hwrite, hread⟩⟩

end Fifo

end P4Survey.SketchLearn
