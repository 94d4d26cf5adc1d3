import Mathlib.Data.List.AList
import Mathlib.Tactic

/-! # The output handler of the Sonata runtime

A query is refined into levels, and the results of a coarser level set the
filters of the next one. The handler keeps the last results of each streaming
query until it has heard of enough queries, makes one delta configuration of
what it has and starts over.
-/

namespace P4Survey.Sonata

/-- A dictionary with its keys in no particular order. -/
abbrev Dict (κ α : Type) := AList fun _ : κ => α

section Mappings

def getRefinedQueryId (qid refLevel : ℕ) : ℕ := 10000 * qid + refLevel

/-- The dictionaries that a refinement plan fills in. -/
structure Mappings where
  queryIn : Dict ℕ (List ℕ)
  queryOut : Dict ℕ (List ℕ)
  queryOutFinal : Dict ℕ ℕ

def Mappings.empty : Mappings := ⟨∅, ∅, ∅⟩

/-- The value is appended to the list of the key, which starts as an empty one. -/
def pushTo (d : Dict ℕ (List ℕ)) (key value : ℕ) : Dict ℕ (List ℕ) :=
  d.insert key ((d.lookup key).getD [] ++ [value])

/-- One pair of neighbours of the plan. -/
def Mappings.link (m : Mappings) (qid1 qid2 : ℕ) : Mappings :=
  { m with queryIn := pushTo m.queryIn qid2 qid1, queryOut := pushTo m.queryOut qid1 qid2 }

/-- A plan is a list of a query, its level and its partition. The last entry's query number is
taken for its level in the key of `query_out_final`. -/
def Mappings.updateQueryMappings (m : Mappings) (finalPlan : List (ℕ × ℕ × ℕ)) : Mappings :=
  if finalPlan.length > 1 then
    let pairs := finalPlan.zip finalPlan.tail
    let linked := pairs.foldl (fun m e =>
      m.link (getRefinedQueryId e.1.1 e.1.2.1) (getRefinedQueryId e.2.1 e.2.2.1)) m
    let query1 := (pairs.getLastD default).1.1
    let r := (finalPlan.getLastD default).1
    { linked with queryOutFinal := linked.queryOutFinal.insert (getRefinedQueryId query1 r) 0 }
  else m

theorem lookup_pushTo_ne_nil {d : Dict ℕ (List ℕ)} (hd : ∀ k l, d.lookup k = some l → l ≠ [])
    (key value k : ℕ) (l : List ℕ) (hl : (pushTo d key value).lookup k = some l) : l ≠ [] := by
  by_cases h : k = key
  · subst h
    rw [pushTo, AList.lookup_insert, Option.some.injEq] at hl
    rw [← hl]
    simp
  · rw [pushTo, AList.lookup_insert_ne h] at hl
    exact hd k l hl

/-- No query is listed without a query that takes its output. -/
theorem queryOut_ne_nil {m : Mappings} (hm : ∀ k l, m.queryOut.lookup k = some l → l ≠ [])
    (finalPlan : List (ℕ × ℕ × ℕ)) (k : ℕ) (l : List ℕ)
    (hl : (m.updateQueryMappings finalPlan).queryOut.lookup k = some l) : l ≠ [] := by
  rw [Mappings.updateQueryMappings] at hl
  split_ifs at hl
  · dsimp only at hl
    generalize finalPlan.zip finalPlan.tail = pairs at hl
    induction pairs generalizing m with
    | nil => exact hm k l hl
    | cons e pairs ih => exact ih (lookup_pushTo_ne_nil hm _ _) hl
  · exact hm k l hl

end Mappings

section Handler

/-- What a query has reported, and the window of it, which the handler does not look at. -/
structure Report where
  window : ℕ
  tableMatchEntries : List String
  deriving DecidableEq, Inhabited

/-- A message has the number of its query and, after it, the fields `received_data[2:]`. -/
structure Message where
  srcQid : ℕ
  window : ℕ
  fields : List String
  deriving DecidableEq, Inhabited

def Message.report (m : Message) : Report :=
  ⟨m.window, if m.fields ≠ [""] then m.fields.dedup else []⟩

/-- The entries of a query go to each query that takes its output. -/
def putEntries (srcQid : ℕ) (report : Report) (delta : Dict (ℕ × ℕ) Report) (outQueries : List ℕ) :
    Dict (ℕ × ℕ) Report :=
  outQueries.foldl (fun delta outQid => delta.insert (outQid, srcQid) report) delta

/-- One round of the loop over `queries_received`. -/
def addToDelta (queryOut : Dict ℕ (List ℕ)) (delta : Dict (ℕ × ℕ) Report) (srcQid : ℕ)
    (report : Report) : Dict (ℕ × ℕ) Report :=
  match queryOut.lookup srcQid with
  | some outQueries =>
    if report.tableMatchEntries.length > 0 then putEntries srcQid report delta outQueries else delta
  | none => delta

def deltaConfig (queryOut : Dict ℕ (List ℕ)) (received : Dict ℕ Report) : Dict (ℕ × ℕ) Report :=
  received.foldl (addToDelta queryOut) ∅

/-- The results that are printed for the operator. -/
def finalOutput (queryOut : Dict ℕ (List ℕ)) (received : Dict ℕ Report) :
    List (ℕ × List String) :=
  (received.entries.filter fun e =>
    (queryOut.lookup e.1).isNone && e.2.tableMatchEntries.length > 0).map fun e =>
      (e.1, e.2.tableMatchEntries)

/-- The state of the handler and what it has sent and printed, the last first. -/
structure Handler where
  queriesReceived : Dict ℕ Report
  sent : List (Dict (ℕ × ℕ) Report)
  printed : List (ℕ × List String)

def Handler.start : Handler := ⟨∅, [], []⟩

def Handler.receive (queryOut : Dict ℕ (List ℕ)) (h : Handler) (m : Message) : Handler :=
  let received := h.queriesReceived.insert m.srcQid m.report
  if received.keys.length ≥ queryOut.keys.length then
    let delta := deltaConfig queryOut received
    { queriesReceived := ∅
      sent := if delta.entries.isEmpty then h.sent else delta :: h.sent
      printed := finalOutput queryOut received ++ h.printed }
  else { h with queriesReceived := received }

end Handler

section Delta

variable {queryOut : Dict ℕ (List ℕ)}

theorem lookup_putEntries (srcQid : ℕ) (report : Report) (delta : Dict (ℕ × ℕ) Report)
    (outQueries : List ℕ) (o s : ℕ) :
    (putEntries srcQid report delta outQueries).lookup (o, s) =
      if s = srcQid ∧ o ∈ outQueries then some report else delta.lookup (o, s) := by
  induction outQueries generalizing delta with
  | nil => simp [putEntries]
  | cons q outQueries ih =>
    change (putEntries srcQid report (delta.insert (q, srcQid) report) outQueries).lookup (o, s) = _
    rw [ih]
    by_cases hs : s = srcQid
    · subst hs
      by_cases hq : o = q
      · subst hq
        simp [AList.lookup_insert]
      · simp [hq, AList.lookup_insert_ne (show (o, s) ≠ (q, s) by simp [hq])]
    · simp [hs, AList.lookup_insert_ne (show (o, s) ≠ (q, srcQid) by simp [hs])]

/-- The entries that go to the queries listed for their source. -/
def Listed (queryOut : Dict ℕ (List ℕ)) (o s : ℕ) (report : Report) : Prop :=
  report.tableMatchEntries ≠ [] ∧ ∃ outQueries, queryOut.lookup s = some outQueries ∧ o ∈ outQueries

theorem lookup_addToDelta_of_ne {srcQid s : ℕ} (h : s ≠ srcQid) (delta : Dict (ℕ × ℕ) Report)
    (report : Report) (o : ℕ) :
    (addToDelta queryOut delta srcQid report).lookup (o, s) = delta.lookup (o, s) := by
  unfold addToDelta
  split
  · split_ifs
    · simp [lookup_putEntries, h]
    · rfl
  · rfl

theorem lookup_addToDelta_self (delta : Dict (ℕ × ℕ) Report) (report report' : Report) (o s : ℕ)
    (hdelta : delta.lookup (o, s) = none) :
    (addToDelta queryOut delta s report).lookup (o, s) = some report' ↔
      report = report' ∧ Listed queryOut o s report := by
  unfold addToDelta Listed
  cases hout : queryOut.lookup s with
  | none => simp [hdelta]
  | some outQueries =>
    dsimp only
    split_ifs with hlen
    · rw [lookup_putEntries]
      have hne : report.tableMatchEntries ≠ [] := List.ne_nil_of_length_pos hlen
      split_ifs with ho
      · simp [hne, ho.2]
      · simp only [hdelta, reduceCtorEq, Option.some.injEq, exists_eq_left', false_iff]
        intro hcon
        exact ho ⟨rfl, hcon.2.2⟩
    · have hnil : report.tableMatchEntries = [] := List.eq_nil_of_length_eq_zero (by omega)
      simp [hdelta, hnil]

theorem lookup_foldl_addToDelta (l : List (Sigma fun _ : ℕ => Report)) (hl : l.NodupKeys)
    (delta : Dict (ℕ × ℕ) Report) (o s : ℕ) (report : Report) (hdelta : delta.lookup (o, s) = none) :
    (l.foldl (fun d e => addToDelta queryOut d e.1 e.2) delta).lookup (o, s) = some report ↔
      l.dlookup s = some report ∧ Listed queryOut o s report := by
  induction l generalizing delta with
  | nil => simp [hdelta]
  | cons e l ih =>
    obtain ⟨srcQid, report'⟩ := e
    rw [List.nodupKeys_cons] at hl
    rw [List.foldl_cons]
    by_cases hs : s = srcQid
    · -- no later round adds to this source
      subst hs
      have hrest : ∀ d : Dict (ℕ × ℕ) Report,
          (l.foldl (fun d e => addToDelta queryOut d e.1 e.2) d).lookup (o, s) = d.lookup (o, s) := by
        intro d
        have hnot := hl.1
        clear ih hl
        induction l generalizing d with
        | nil => rfl
        | cons e l ih =>
          rw [List.keys_cons, List.mem_cons, not_or] at hnot
          rw [List.foldl_cons, ih _ hnot.2, lookup_addToDelta_of_ne hnot.1]
      rw [hrest, lookup_addToDelta_self _ _ _ _ _ hdelta, List.dlookup_cons_eq]
      constructor
      · rintro ⟨rfl, h⟩
        exact ⟨rfl, h⟩
      · rintro ⟨heq, h⟩
        rw [Option.some.injEq] at heq
        subst heq
        exact ⟨rfl, h⟩
    · rw [ih hl.2 _ (by rw [lookup_addToDelta_of_ne hs, hdelta]), List.dlookup_cons_ne _ _ hs]

/-- A delta configuration has the entries of each source for exactly the queries listed for it. -/
theorem lookup_deltaConfig (received : Dict ℕ Report) (o s : ℕ) (report : Report) :
    (deltaConfig queryOut received).lookup (o, s) = some report ↔
      received.lookup s = some report ∧ Listed queryOut o s report :=
  lookup_foldl_addToDelta received.entries received.nodupKeys ∅ o s report (AList.lookup_empty _)

end Delta

end P4Survey.Sonata
