import Mathlib.Algebra.BigOperators.Group.Finset.Piecewise
import Mathlib.Data.List.Count
import Mathlib.Tactic

/-! # Counting sketches, Bloom filters and a detector made of them

A sketch has several rows of cells and counts an item in one cell of each row. A
Bloom filter marks one cell in each row. The detector counts every item it sees,
and reports an item whose cells are all above a threshold unless the filter has
it already.
-/

namespace P4Survey.Lib

variable {α ι κ : Type*}

section Sketch

variable [DecidableEq κ] (hash : ι → α → κ)

/-- The items of a list that are counted in cell `c` of row `j`. -/
def load (l : List α) (j : ι) (c : κ) : ℕ := l.countP fun a => hash j a = c

theorem load_cons (a : α) (l : List α) (j : ι) (c : κ) :
    load hash (a :: l) j c = load hash l j c + if hash j a = c then 1 else 0 := by
  simp [load, List.countP_cons]

theorem load_concat (a : α) (l : List α) (j : ι) (c : κ) :
    load hash (l ++ [a]) j c = load hash l j c + if hash j a = c then 1 else 0 := by
  simp [load, List.countP_append, List.countP_cons]

/-- The cells of a row count every item once. -/
theorem sum_load {l : List α} {j : ι} {s : Finset κ} (h : ∀ a ∈ l, hash j a ∈ s) :
    ∑ c ∈ s, load hash l j c = l.length := by
  induction l with
  | nil => simp [load]
  | cons a l ih =>
    have hmem : hash j a ∈ s := h a List.mem_cons_self
    simp only [load_cons, Finset.sum_add_distrib, Finset.sum_ite_eq, hmem, if_true]
    rw [ih fun b hb => h b (List.mem_cons_of_mem a hb), List.length_cons]

theorem load_le_length (l : List α) (j : ι) (c : κ) : load hash l j c ≤ l.length :=
  List.countP_le_length

/-- A sketch never counts an item less often than it was seen. -/
theorem count_le_load [DecidableEq α] (l : List α) (j : ι) (a : α) :
    l.count a ≤ load hash l j (hash j a) := by
  apply List.countP_mono_left
  intro b _ hb
  rw [beq_iff_eq] at hb
  simp [hb]

end Sketch

section Filter

variable (hash : ι → α → κ)

/-- Some item of the list has its cell in row `j` at `c`. -/
def Marked (l : List α) (j : ι) (c : κ) : Prop := ∃ a ∈ l, hash j a = c

theorem not_marked_nil (j : ι) (c : κ) : ¬ Marked hash [] j c := by
  simp [Marked]

theorem marked_cons (a : α) (l : List α) (j : ι) (c : κ) :
    Marked hash (a :: l) j c ↔ hash j a = c ∨ Marked hash l j c := by
  simp [Marked]

end Filter

/-- The hash functions of the sketch and of the filter, and the threshold. -/
structure Detector (α ι ι' κ κ' : Type*) where
  count : ι → α → κ
  filter : ι' → α → κ'
  threshold : ℕ

namespace Detector

variable {ι' κ' : Type*} (d : Detector α ι ι' κ κ')

/-- Every cell of the item is above the threshold. -/
def Over [DecidableEq κ] (reads : List α) (a : α) : Prop := ∀ j, d.threshold < load d.count reads j (d.count j a)

/-- The filter has the item. -/
def Known (reports : List α) (a : α) : Prop := ∀ j, Marked d.filter reports j (d.filter j a)

theorem known_of_mem {reports : List α} {a : α} (h : a ∈ reports) : d.Known reports a :=
  fun _ => ⟨a, h, rfl⟩

theorem Known.cons {reports : List α} {a : α} (h : d.Known reports a) (b : α) :
    d.Known (b :: reports) a :=
  fun j => (marked_cons d.filter b reports j _).mpr (.inr (h j))

variable {d} in
/-- What is known is reported itself or hidden by reports of others. -/
theorem Known.reported_or_hidden {reports : List α} {a : α} (h : d.Known reports a) :
    a ∈ reports ∨ ∀ j, ∃ b ∈ reports, b ≠ a ∧ d.filter j b = d.filter j a := by
  by_cases ha : a ∈ reports
  · exact .inl ha
  · right
    intro j
    obtain ⟨b, hb, he⟩ := h j
    refine ⟨b, hb, ?_, he⟩
    rintro rfl
    exact ha hb

variable [DecidableEq κ]

/-- The items seen and those reported, in a run of the detector. -/
inductive Run : List α → List α → Prop
  | start : Run [] []
  | report {reads reports : List α} {a : α} : Run reads reports → d.Over reads a →
      ¬ d.Known reports a → Run (a :: reads) (a :: reports)
  | quiet {reads reports : List α} {a : α} : Run reads reports →
      (d.Over reads a → d.Known reports a) → Run (a :: reads) reports

variable {d}

theorem Run.nodup {reads reports : List α} (h : d.Run reads reports) : reports.Nodup := by
  induction h with
  | start => exact List.nodup_nil
  | report _ _ hknown ih => exact List.nodup_cons.mpr ⟨fun hmem => hknown (d.known_of_mem hmem), ih⟩
  | quiet _ _ ih => exact ih

/-- An item seen more than once beyond the threshold is known. -/
theorem Run.known [DecidableEq α] {reads reports : List α} (h : d.Run reads reports) {a : α}
    (ha : d.threshold + 2 ≤ reads.count a) : d.Known reports a := by
  induction h with
  | start => simp at ha
  | @report reads reports b hrun hover hknown ih =>
    by_cases hb : b = a
    · subst hb
      exact d.known_of_mem List.mem_cons_self
    · rw [List.count_cons_of_ne hb] at ha
      exact (ih ha).cons d b
  | @quiet reads reports b hrun hquiet ih =>
    by_cases hb : b = a
    · subst hb
      rw [List.count_cons_self] at ha
      apply hquiet
      intro j
      have hle := count_le_load d.count reads j b
      omega
    · rw [List.count_cons_of_ne hb] at ha
      exact ih ha

end Detector

end P4Survey.Lib
