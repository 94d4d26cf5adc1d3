import Mathlib.Data.List.GetD
import Mathlib.Data.List.Sort

/-! # Sorted lists

The elements of a list by rank, and a map with any number of entries to a key, as the list
of its entries in the order in which it is traversed.
-/

namespace P4Survey.Lib

section Ranks

variable {α : Type*} [LinearOrder α] [Zero α] {l d : List α} {i j : ℕ}

/-- The element of rank `i`, from the smallest on. -/
def ranked (l : List α) (i : ℕ) : α := (l.insertionSort (· ≤ ·)).getD i 0

theorem ranked_le (hij : i ≤ j) (hj : j < l.length) : ranked l i ≤ ranked l j := by
  have hlen : (l.insertionSort (· ≤ ·)).length = l.length := List.length_insertionSort _ _
  have hsorted : (l.insertionSort (· ≤ ·)).SortedLE :=
    (List.pairwise_insertionSort (· ≤ ·) l).sortedLE
  rw [ranked, ranked, List.getD_eq_getElem _ _ (by omega), List.getD_eq_getElem _ _ (by omega)]
  exact hsorted.getElem_le_getElem_of_le hij

/-- In descending order the ranks run backwards. -/
theorem getElem?_of_descending (hperm : d.Perm l) (hd : d.Pairwise (· ≥ ·))
    (hi : i < l.length) : d[i]? = some (ranked l (l.length - 1 - i)) := by
  have hlen : (l.insertionSort (· ≤ ·)).length = l.length := List.length_insertionSort _ _
  have hreverse : d = (l.insertionSort (· ≤ ·)).reverse := by
    apply List.Perm.eq_of_sortedGE hd.sortedGE
    · exact List.sortedGE_reverse.mpr (List.pairwise_insertionSort (· ≤ ·) l).sortedLE
    · exact hperm.trans ((List.perm_insertionSort _ l).symm.trans (List.reverse_perm _).symm)
  rw [hreverse, List.getElem?_reverse (by omega), hlen, ranked,
    List.getD_eq_getElem _ _ (by omega), List.getElem?_eq_getElem (by omega)]

end Ranks

namespace Multimap

variable {α κ : Type*} [LinearOrder κ] (key : α → κ) {R : α → α → Prop} {a : α} {l : List α}

/-- A new entry follows all those with the same key. -/
def insert (a : α) (l : List α) : List α := l.orderedInsert (fun a b => key a < key b) a

theorem insert_perm (a : α) (l : List α) : (insert key a l).Perm (a :: l) :=
  List.perm_orderedInsert _ a l

variable {key}

/-- An order that refines that of the keys is kept if the new entry is the last of its key. -/
theorem insert_pairwise (hkey : ∀ b c, R b c → key b ≤ key c)
    (hlt : ∀ b ∈ l, key a < key b → R a b) (hge : ∀ b ∈ l, key b ≤ key a → R b a)
    (hl : l.Pairwise R) : (insert key a l).Pairwise R := by
  induction l with
  | nil => exact List.pairwise_singleton R a
  | cons b l ih =>
    obtain ⟨hb, hrest⟩ := List.pairwise_cons.mp hl
    rw [insert, List.orderedInsert_cons]
    by_cases hab : key a < key b
    · rw [if_pos hab, List.pairwise_cons]
      refine ⟨fun c hc => ?_, hl⟩
      rcases List.mem_cons.mp hc with rfl | hc
      · exact hlt _ List.mem_cons_self hab
      · exact hlt c (List.mem_cons_of_mem b hc) (hab.trans_le (hkey b c (hb c hc)))
    · rw [if_neg hab, List.pairwise_cons]
      refine ⟨fun c hc => ?_, ?_⟩
      · rcases List.mem_cons.mp ((insert_perm key a l).mem_iff.mp hc) with rfl | hc
        · exact hge b List.mem_cons_self (not_lt.mp hab)
        · exact hb c hc
      · exact ih (fun c hc => hlt c (List.mem_cons_of_mem b hc))
          (fun c hc => hge c (List.mem_cons_of_mem b hc)) hrest

/-- What is looked for first is what is erased. -/
theorem find?_append_eraseP_perm (p : α → Bool) (l : List α) :
    ((l.find? p).toList ++ l.eraseP p).Perm l := by
  induction l with
  | nil => exact .refl []
  | cons b l ih =>
    cases hb : p b with
    | true =>
      rw [List.find?_cons_of_pos hb, List.eraseP_cons_of_pos hb]
      exact .refl (b :: l)
    | false =>
      rw [List.find?_cons_of_neg (by simp [hb]), List.eraseP_cons_of_neg (by simp [hb])]
      exact List.perm_middle.trans (ih.cons b)

end Multimap

end P4Survey.Lib
