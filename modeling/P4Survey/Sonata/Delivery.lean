import P4Survey.Lib.System
import P4Survey.Sonata.OpHandler

/-! # Coarse results reach the delta configurations

Every streaming query sends one message a window, in any order within the
window. The handler counts the queries it has heard of, final ones included,
up to the number of coarse queries. Results that wait in its dictionary when
the next ones of their query arrive are overwritten; all other results go into
exactly one delta configuration.
-/

namespace P4Survey.Sonata
open Lib

section Arrivals

/-- The queries whose output others take, and the streaming queries, which all send a message in
each window. -/
structure Plan where
  queryOut : Dict ℕ (List ℕ)
  streaming : List ℕ
  nodup : streaming.Nodup
  outQueries_ne : ∀ k l, queryOut.lookup k = some l → l ≠ []

/-- The handler, the window the messages are of, the queries that have sent theirs and all
messages. -/
structure Runtime where
  handler : Handler
  window : ℕ
  arrived : List ℕ
  log : List Message

def Runtime.start : Runtime := ⟨.start, 0, [], []⟩

variable (p : Plan)

/-- The message of the last query ends the window. -/
def Runtime.receive (s : Runtime) (m : Message) : Runtime where
  handler := s.handler.receive p.queryOut m
  window := if s.arrived.length + 1 = p.streaming.length then s.window + 1 else s.window
  arrived := if s.arrived.length + 1 = p.streaming.length then [] else m.srcQid :: s.arrived
  log := m :: s.log

def runtime : System Runtime Message where
  init s := s = .start
  enabled s m := m.window = s.window ∧ m.srcQid ∈ p.streaming ∧ m.srcQid ∉ s.arrived
  next s m := s.receive p m

instance (s : Runtime) (m : Message) : Decidable ((runtime p).enabled s m) :=
  inferInstanceAs (Decidable (_ ∧ _ ∧ _))

/-- The messages of a window are those of the queries that have arrived, and earlier windows are
complete. -/
structure Ordered (s : Runtime) : Prop where
  nodup : s.arrived.Nodup
  sub : s.arrived ⊆ p.streaming
  past : ∀ m ∈ s.log, m.window < s.window ∨ m.window = s.window ∧ m.srcQid ∈ s.arrived
  current : ∀ q ∈ s.arrived, ∃ m ∈ s.log, m.srcQid = q ∧ m.window = s.window
  complete : ∀ q ∈ p.streaming, ∀ w < s.window, ∃ m ∈ s.log, m.srcQid = q ∧ m.window = w

variable {p} {s : Runtime} {m : Message}

theorem Ordered.start : Ordered p .start where
  nodup := List.nodup_nil
  sub := List.nil_subset _
  past m hm := by cases hm
  current q hq := by cases hq
  complete q _ w hw := absurd hw (Nat.not_lt_zero w)

theorem Ordered.receive (hs : Ordered p s) (he : (runtime p).enabled s m) :
    Ordered p (s.receive p m) := by
  obtain ⟨hw, hq, hnew⟩ := he
  have hnodup : (m.srcQid :: s.arrived).Nodup := List.nodup_cons.mpr ⟨hnew, hs.nodup⟩
  have hsub : m.srcQid :: s.arrived ⊆ p.streaming := List.cons_subset.mpr ⟨hq, hs.sub⟩
  have hcurrent : ∀ q ∈ m.srcQid :: s.arrived, ∃ m' ∈ m :: s.log,
      m'.srcQid = q ∧ m'.window = s.window := by
    intro q hq
    rcases List.mem_cons.mp hq with rfl | hq
    · exact ⟨m, List.mem_cons_self, rfl, hw⟩
    · obtain ⟨m', hm', heq⟩ := hs.current q hq
      exact ⟨m', List.mem_cons_of_mem _ hm', heq⟩
  have hcomplete : ∀ q ∈ p.streaming, ∀ w < s.window, ∃ m' ∈ m :: s.log,
      m'.srcQid = q ∧ m'.window = w := by
    intro q hq w hw
    obtain ⟨m', hm', heq⟩ := hs.complete q hq w hw
    exact ⟨m', List.mem_cons_of_mem _ hm', heq⟩
  unfold Runtime.receive
  by_cases hfull : s.arrived.length + 1 = p.streaming.length
  · simp only [if_pos hfull]
    refine ⟨List.nodup_nil, List.nil_subset _, ?_, (fun q hq => by cases hq), ?_⟩
    · intro m' hm'
      left
      change m'.window < s.window + 1
      rcases List.mem_cons.mp hm' with rfl | hm'
      · omega
      · have := hs.past m' hm'
        omega
    · intro q hq w (hlt : w < s.window + 1)
      by_cases hlast : w = s.window
      · -- as many queries as there are have arrived
        subst hlast
        have hperm := (List.subperm_of_subset hnodup hsub).perm_of_length_le (by simp [hfull])
        exact hcurrent q (hperm.mem_iff.mpr hq)
      · exact hcomplete q hq w (by omega)
  · simp only [if_neg hfull]
    refine ⟨hnodup, hsub, ?_, hcurrent, hcomplete⟩
    intro m' hm'
    rcases List.mem_cons.mp hm' with rfl | hm'
    · exact .inr ⟨hw, List.mem_cons_self⟩
    · rcases hs.past m' hm' with hlt | ⟨heq, harr⟩
      · exact .inl hlt
      · exact .inr ⟨heq, List.mem_cons_of_mem _ harr⟩

/-- The message of a query comes after all its earlier ones. -/
theorem Ordered.window_lt (hs : Ordered p s) (he : (runtime p).enabled s m) {m' : Message}
    (hm' : m' ∈ s.log) (hq : m'.srcQid = m.srcQid) : m'.window < m.window := by
  rcases hs.past m' hm' with hlt | ⟨-, harr⟩
  · exact lt_of_lt_of_eq hlt he.1.symm
  · rw [hq] at harr
    exact absurd harr he.2.2

theorem mem_streaming (h : (runtime p).Reachable s) (hm : m ∈ s.log) : m.srcQid ∈ p.streaming := by
  induction h with
  | init h =>
    rw [show _ = Runtime.start from h] at hm
    cases hm
  | step _ he ih =>
    rcases List.mem_cons.mp hm with rfl | hm
    · exact he.2.1
    · exact ih hm

end Arrivals

section Sent

/-- The delta configuration has these entries of the query. -/
def Carries (delta : Dict (ℕ × ℕ) Report) (srcQid : ℕ) (report : Report) : Prop :=
  ∃ e ∈ delta.entries, e.1.2 = srcQid ∧ e.2 = report

instance (delta : Dict (ℕ × ℕ) Report) (srcQid : ℕ) (report : Report) :
    Decidable (Carries delta srcQid report) :=
  inferInstanceAs (Decidable (∃ e ∈ delta.entries, _))

theorem carries_iff {delta : Dict (ℕ × ℕ) Report} {srcQid : ℕ} {report : Report} :
    Carries delta srcQid report ↔ ∃ o, delta.lookup (o, srcQid) = some report := by
  constructor
  · rintro ⟨⟨⟨o, q⟩, r⟩, he, rfl, rfl⟩
    exact ⟨o, AList.mem_lookup_iff.mpr he⟩
  · rintro ⟨o, ho⟩
    exact ⟨⟨(o, srcQid), report⟩, AList.mem_lookup_iff.mp ho, rfl, rfl⟩

/-- The number of delta configurations with these entries. -/
def Handler.timesSent (h : Handler) (srcQid : ℕ) (report : Report) : ℕ :=
  h.sent.countP fun delta => Carries delta srcQid report

variable {p : Plan} {h : Handler} {m : Message}

theorem carries_deltaConfig {received : Dict ℕ Report} {q : ℕ} {report : Report} :
    Carries (deltaConfig p.queryOut received) q report ↔
      received.lookup q = some report ∧ report.tableMatchEntries ≠ [] ∧
        ∃ outQueries, p.queryOut.lookup q = some outQueries := by
  rw [carries_iff]
  constructor
  · rintro ⟨o, ho⟩
    obtain ⟨hreceived, hne, outQueries, hout, -⟩ := (lookup_deltaConfig _ _ _ _).mp ho
    exact ⟨hreceived, hne, outQueries, hout⟩
  · rintro ⟨hreceived, hne, outQueries, hout⟩
    obtain ⟨o, ho⟩ := List.exists_mem_of_ne_nil _ (p.outQueries_ne q outQueries hout)
    exact ⟨o, (lookup_deltaConfig _ _ _ _).mpr ⟨hreceived, hne, outQueries, hout, ho⟩⟩

/-- The handler waits, or it makes a delta configuration of all it has and starts over. -/
theorem Handler.receive_cases (p : Plan) (h : Handler) (m : Message) :
    ((h.receive p.queryOut m).queriesReceived = h.queriesReceived.insert m.srcQid m.report ∧
      (h.receive p.queryOut m).sent = h.sent) ∨
    ((h.receive p.queryOut m).queriesReceived = ∅ ∧
      (∀ q report, (h.receive p.queryOut m).timesSent q report = h.timesSent q report +
        if Carries (deltaConfig p.queryOut (h.queriesReceived.insert m.srcQid m.report)) q report
          then 1 else 0) ∧
      ∀ delta ∈ (h.receive p.queryOut m).sent, delta ∈ h.sent ∨
        delta = deltaConfig p.queryOut (h.queriesReceived.insert m.srcQid m.report)) := by
  unfold Handler.receive
  dsimp only
  split_ifs with hcount hempty
  · right
    refine ⟨rfl, ?_, fun delta hdelta => .inl hdelta⟩
    intro q report
    have hno : ¬Carries
        (deltaConfig p.queryOut (h.queriesReceived.insert m.srcQid m.report)) q report := by
      rintro ⟨e, he, -⟩
      rw [List.isEmpty_iff] at hempty
      rw [hempty] at he
      cases he
    rw [if_neg hno]
    rfl
  · right
    refine ⟨rfl, ?_, fun delta hdelta => (List.mem_cons.mp hdelta).symm⟩
    intro q report
    simp [Handler.timesSent, List.countP_cons]
  · exact .inl ⟨rfl, rfl⟩

end Sent

section Runs

variable (p : Plan)

/-- What waits is the last message of its query, and what was sent is a message, for exactly the
queries listed for its source. -/
structure Sound (s : Runtime) : Prop where
  waiting : ∀ q report, s.handler.queriesReceived.lookup q = some report →
    ∃ m ∈ s.log, m.srcQid = q ∧ m.report = report ∧
      ∀ m' ∈ s.log, m'.srcQid = q → m'.window ≤ m.window
  source : ∀ delta ∈ s.handler.sent, ∀ q report, Carries delta q report →
    ∃ m ∈ s.log, m.srcQid = q ∧ m.report = report
  listed : ∀ delta ∈ s.handler.sent, ∀ q report, Carries delta q report →
    ∀ o, delta.lookup (o, q) = some report ↔
      ∃ outQueries, p.queryOut.lookup q = some outQueries ∧ o ∈ outQueries

/-- The results of a coarse query. -/
structure Coarse (m : Message) : Prop where
  listed : ∃ outQueries, p.queryOut.lookup m.srcQid = some outQueries
  ne : m.report.tableMatchEntries ≠ []

/-- Coarse results wait or are in one delta configuration. -/
def Accounted (received : Dict ℕ Report) (h : Handler) (m : Message) : Prop :=
  received.lookup m.srcQid = some m.report ∧ h.timesSent m.srcQid m.report = 0 ∨
    received.lookup m.srcQid ≠ some m.report ∧ h.timesSent m.srcQid m.report = 1

/-- No entries of the query wait that its new message would overwrite. -/
def Clear (s : Runtime) (m : Message) : Prop :=
  (p.queryOut.lookup m.srcQid).isSome →
    (s.handler.queriesReceived.lookup m.srcQid).all (·.tableMatchEntries.isEmpty)

instance (s : Runtime) (m : Message) : Decidable (Clear p s m) :=
  inferInstanceAs (Decidable (_ → _))

variable {p} {s : Runtime} {m : Message}

theorem report_ne {m' : Message} (h : m'.window < m.window) : m'.report ≠ m.report := by
  intro heq
  have hw : m'.window = m.window := congrArg Report.window heq
  omega

theorem Sound.receive (hs : Sound p s) (ho : Ordered p s) (he : (runtime p).enabled s m) :
    Sound p (s.receive p m) := by
  have hwaiting : ∀ q report,
      (s.handler.queriesReceived.insert m.srcQid m.report).lookup q = some report →
      ∃ m' ∈ m :: s.log, m'.srcQid = q ∧ m'.report = report ∧
        ∀ m'' ∈ m :: s.log, m''.srcQid = q → m''.window ≤ m'.window := by
    intro q report hlookup
    by_cases hq : q = m.srcQid
    · subst hq
      rw [AList.lookup_insert, Option.some.injEq] at hlookup
      refine ⟨m, List.mem_cons_self, rfl, hlookup, ?_⟩
      intro m'' hm'' hq
      rcases List.mem_cons.mp hm'' with rfl | hm''
      · exact le_rfl
      · exact (ho.window_lt he hm'' hq).le
    · rw [AList.lookup_insert_ne hq] at hlookup
      obtain ⟨m', hm', hsrc, hreport, hlast⟩ := hs.waiting q report hlookup
      refine ⟨m', List.mem_cons_of_mem _ hm', hsrc, hreport, ?_⟩
      intro m'' hm'' hq''
      rcases List.mem_cons.mp hm'' with rfl | hm''
      · exact absurd hq''.symm hq
      · exact hlast m'' hm'' hq''
  have hsource : ∀ delta ∈ s.handler.sent, ∀ q report, Carries delta q report →
      ∃ m' ∈ m :: s.log, m'.srcQid = q ∧ m'.report = report := by
    intro delta hdelta q report hc
    obtain ⟨m', hm', heq⟩ := hs.source delta hdelta q report hc
    exact ⟨m', List.mem_cons_of_mem _ hm', heq⟩
  rcases s.handler.receive_cases p m with ⟨hreceived, hsent⟩ | ⟨hreceived, -, hsent⟩
  · constructor
    · rw [Runtime.receive, hreceived]
      exact hwaiting
    · rw [Runtime.receive, hsent]
      exact hsource
    · rw [Runtime.receive, hsent]
      exact hs.listed
  · constructor
    · intro q report hlookup
      rw [Runtime.receive, hreceived, AList.lookup_empty] at hlookup
      cases hlookup
    · intro delta hdelta q report hc
      rcases hsent delta hdelta with hold | rfl
      · exact hsource delta hold q report hc
      · obtain ⟨m', hm', hsrc, hreport, -⟩ := hwaiting q report (carries_deltaConfig.mp hc).1
        exact ⟨m', hm', hsrc, hreport⟩
    · intro delta hdelta q report hc o
      rcases hsent delta hdelta with hold | rfl
      · exact hs.listed delta hold q report hc o
      · obtain ⟨hlookup, hne, -⟩ := carries_deltaConfig.mp hc
        rw [lookup_deltaConfig]
        exact ⟨fun h => h.2.2, fun h => ⟨hlookup, hne, h⟩⟩

/-- With its message in the dictionary, each query is accounted for. -/
theorem accounted_insert (hs : Sound p s) (ho : Ordered p s) (he : (runtime p).enabled s m)
    (hclear : Clear p s m)
    (hacc : ∀ m' ∈ s.log, Coarse p m' → Accounted s.handler.queriesReceived s.handler m')
    {m' : Message} (hm' : m' ∈ m :: s.log) (hcoarse : Coarse p m') :
    Accounted (s.handler.queriesReceived.insert m.srcQid m.report) s.handler m' := by
  rcases List.mem_cons.mp hm' with rfl | hm'
  · -- no message of this window was sent before
    left
    refine ⟨AList.lookup_insert _, ?_⟩
    rw [Handler.timesSent, List.countP_eq_zero]
    intro delta hdelta hc
    obtain ⟨m₀, hm₀, hsrc, hreport⟩ := hs.source delta hdelta _ _ (of_decide_eq_true hc)
    exact report_ne (ho.window_lt he hm₀ hsrc) hreport
  · have hold := hacc m' hm' hcoarse
    unfold Accounted at hold ⊢
    by_cases hq : m'.srcQid = m.srcQid
    · right
      have hne := report_ne (ho.window_lt he hm' hq)
      rw [hq, AList.lookup_insert]
      refine ⟨fun h => hne (Option.some.inj h).symm, ?_⟩
      rcases hold with ⟨hwait, -⟩ | ⟨-, honce⟩
      · -- its entries would have been overwritten
        obtain ⟨outQueries, hout⟩ := hcoarse.listed
        rw [hq] at hwait hout
        have hempty := hclear (by rw [hout]; rfl)
        rw [hwait, Option.all_some, List.isEmpty_iff] at hempty
        exact absurd hempty hcoarse.ne
      · rw [← hq]
        exact honce
    · rw [AList.lookup_insert_ne hq]
      exact hold

theorem accounted_receive (hs : Sound p s) (ho : Ordered p s) (he : (runtime p).enabled s m)
    (hclear : Clear p s m)
    (hacc : ∀ m' ∈ s.log, Coarse p m' → Accounted s.handler.queriesReceived s.handler m') :
    ∀ m' ∈ (s.receive p m).log, Coarse p m' →
      Accounted (s.receive p m).handler.queriesReceived (s.receive p m).handler m' := by
  intro m' hm' hcoarse
  have hbefore := accounted_insert hs ho he hclear hacc hm' hcoarse
  rw [Runtime.receive]
  unfold Accounted at hbefore ⊢
  rcases s.handler.receive_cases p m with ⟨hreceived, hsent⟩ | ⟨hreceived, htimes, -⟩
  · rw [hreceived, Handler.timesSent, hsent]
    exact hbefore
  · right
    rw [hreceived, AList.lookup_empty, htimes]
    refine ⟨by simp, ?_⟩
    rcases hbefore with ⟨hwait, hzero⟩ | ⟨hnot, hone⟩
    · rw [if_pos (carries_deltaConfig.mpr ⟨hwait, hcoarse.ne, hcoarse.listed⟩), hzero]
    · rw [if_neg fun hc => hnot (carries_deltaConfig.mp hc).1, hone]

/-- The state of the runtime in runs that overwrite nothing. -/
structure Tidy (p : Plan) (s : Runtime) : Prop where
  ordered : Ordered p s
  sound : Sound p s
  accounted : ∀ m ∈ s.log, Coarse p m → Accounted s.handler.queriesReceived s.handler m

theorem Tidy.reachable (h : ((runtime p).restrict (Clear p)).Reachable s) : Tidy p s := by
  induction h with
  | init h =>
    rw [show _ = Runtime.start from h]
    refine ⟨.start, ⟨?_, ?_, ?_⟩, fun m hm => by cases hm⟩
    · intro q report hlookup
      rw [Runtime.start, Handler.start, AList.lookup_empty] at hlookup
      cases hlookup
    · intro delta hdelta
      cases hdelta
    · intro delta hdelta
      cases hdelta
  | step _ hstep ih =>
    obtain ⟨he, hclear⟩ := hstep
    exact ⟨ih.ordered.receive he, ih.sound.receive ih.ordered he,
      accounted_receive ih.sound ih.ordered he hclear ih.accounted⟩

variable (p)

/-- The entries are in exactly one delta configuration, for exactly the listed queries. -/
structure Delivered (h : Handler) (m : Message) : Prop where
  once : h.timesSent m.srcQid m.report = 1
  listed : ∀ delta ∈ h.sent, Carries delta m.srcQid m.report →
    ∀ o, delta.lookup (o, m.srcQid) = some m.report ↔
      ∃ outQueries, p.queryOut.lookup m.srcQid = some outQueries ∧ o ∈ outQueries

variable {p}

/-- In runs of this kind the results of a coarse query have been delivered by the end of the next
window. -/
theorem coarse_results_delivered (h : ((runtime p).restrict (Clear p)).Reachable s)
    (hm : m ∈ s.log) (hcoarse : Coarse p m) (hw : m.window + 1 < s.window) :
    Delivered p s.handler m := by
  have hs := Tidy.reachable h
  refine ⟨?_, fun delta hdelta hc => hs.sound.listed delta hdelta _ _ hc⟩
  rcases hs.accounted m hm hcoarse with ⟨hwait, -⟩ | ⟨-, honce⟩
  · -- a query whose results wait has sent no later message
    exfalso
    obtain ⟨m₀, -, -, hreport, hlast⟩ := hs.sound.waiting _ _ hwait
    have hstream : m.srcQid ∈ p.streaming := mem_streaming h.of_restrict hm
    obtain ⟨m', hm', hsrc, hnext⟩ := hs.ordered.complete _ hstream _ hw
    have hle := hlast m' hm' hsrc
    have heq : m₀.window = m.window := congrArg Report.window hreport
    omega
  · exact honce

end Runs

section ThreeLevels

/-- Query 1 at the levels 8, 16 and 32. -/
def threeLevels : Plan where
  queryOut := (Mappings.empty.updateQueryMappings [(1, 8, 1), (1, 16, 1), (1, 32, 1)]).queryOut
  streaming := [10008, 10016, 10032]
  nodup := by decide
  outQueries_ne := queryOut_ne_nil (fun k l hl => by cases hl) _

/-- The three queries report in the same order in two windows. -/
def steady : List Message :=
  [⟨10008, 0, ["10.0.0.0"]⟩, ⟨10016, 0, ["10.1.0.0"]⟩, ⟨10032, 0, [""]⟩,
    ⟨10008, 1, ["11.0.0.0"]⟩, ⟨10016, 1, ["11.1.0.0"]⟩, ⟨10032, 1, [""]⟩]

theorem coarse_results_delivered_steady :
    Delivered threeLevels ((runtime threeLevels).run .start steady).handler
      ⟨10016, 0, ["10.1.0.0"]⟩ := by
  have hstart : ((runtime threeLevels).restrict (Clear threeLevels)).Reachable .start := .init rfl
  have hr := hstart.run (l := steady) (by decide +kernel)
  rw [System.run_restrict] at hr
  exact coarse_results_delivered hr (by decide +kernel)
    ⟨⟨[10032], by decide +kernel⟩, by decide +kernel⟩ (by decide +kernel)

/-- The results of level 16 come last in one window and first in the next. -/
def swapped : List Message :=
  [⟨10008, 0, [""]⟩, ⟨10032, 0, [""]⟩, ⟨10016, 0, ["10.1.0.0"]⟩,
    ⟨10016, 1, ["11.1.0.0"]⟩, ⟨10008, 1, [""]⟩, ⟨10032, 1, [""]⟩]

theorem swapped_results_lost :
    ¬∀ (p : Plan) (s : Runtime), (runtime p).Reachable s → ∀ m ∈ s.log, Coarse p m →
      m.window + 1 < s.window → Delivered p s.handler m := by
  intro h
  have hstart : (runtime threeLevels).Reachable .start := .init rfl
  have hr := hstart.run (l := swapped) (by decide +kernel)
  have hlost := h _ _ hr ⟨10016, 0, ["10.1.0.0"]⟩ (by decide +kernel)
    ⟨⟨[10032], by decide +kernel⟩, by decide +kernel⟩ (by decide +kernel)
  have hnone : ((runtime threeLevels).run .start swapped).handler.timesSent 10016
      ⟨0, ["10.1.0.0"]⟩ = 0 := by decide +kernel
  exact absurd (hnone.symm.trans hlost.once) (by decide)

end ThreeLevels

end P4Survey.Sonata
