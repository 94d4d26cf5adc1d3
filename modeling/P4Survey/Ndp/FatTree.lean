import Mathlib.Data.List.Intervals
import Mathlib.Data.List.ProdSigma
import Mathlib.Tactic

/-! # Paths through a fat tree

`FatTreeTopology` of `datacenter/fat_tree_topology.cpp`: the number `K` of ports of a
switch for a number of hosts, the links that `init_network` creates and the routes that
`get_paths` builds from them. An array entry that was not created is a null pointer,
here `none`; a failed assertion or a call on a null pointer ends the program.
-/

namespace P4Survey.Ndp.FatTree

/-- A host or a switch of one of the three layers. -/
inductive Node where
  | host (i : ℕ)
  | lower (i : ℕ)
  | upper (i : ℕ)
  | core (i : ℕ)
  deriving DecidableEq

/-- One direction of a link. The arrays `queues_ns_nlp[k][j]`, `pipes_ns_nlp[k][j]` and so on
have an entry for each. -/
structure Link where
  start : Node
  stop : Node
  deriving DecidableEq

def nsNlp (k j : ℕ) : Link := ⟨.host k, .lower j⟩
def nlpNs (j k : ℕ) : Link := ⟨.lower j, .host k⟩
def nlpNup (j k : ℕ) : Link := ⟨.lower j, .upper k⟩
def nupNlp (k j : ℕ) : Link := ⟨.upper k, .lower j⟩
def nupNc (j k : ℕ) : Link := ⟨.upper j, .core k⟩
def ncNup (k j : ℕ) : Link := ⟨.core k, .upper j⟩

/-- What a route is made of: a queue, a pipe, or the virtual queue at the end of a link. -/
inductive Element where
  | queue (l : Link)
  | pipe (l : Link)
  | endpoint (l : Link)
  deriving DecidableEq

inductive QueueType where
  | random | ecn | composite | ctrlPrio | lossless | losslessInput | losslessInputEcn
  deriving DecidableEq

/-- The queue types with a virtual queue behind each link between switches. -/
def QueueType.isInput (qt : QueueType) : Bool := qt = .losslessInput || qt = .losslessInputEcn

def minPodId (K podId : ℕ) : ℕ := podId * K / 2
def maxPodId (K podId : ℕ) : ℕ := (podId + 1) * K / 2 - 1

/-- The upper switches of a pod. -/
def podSwitches (K podId : ℕ) : List ℕ := List.Ico (minPodId K podId) (maxPodId K podId + 1)

/-- The three loops of `init_network`: from the lower switches to the servers, -/
def serverLinks (K : ℕ) : List Link :=
  (List.range (K * K / 2)).flatMap fun j => (List.range (K / 2)).flatMap fun l =>
    [nlpNs j (j * K / 2 + l), nsNlp (j * K / 2 + l) j]

/-- from the lower switches to the upper ones of the pod, -/
def podLinks (K : ℕ) : List Link :=
  (List.range (K * K / 2)).flatMap fun j => (podSwitches K (2 * j / K)).flatMap fun k =>
    [nupNlp k j, nlpNup j k]

/-- and from the upper switches to the core. -/
def coreLinks (K : ℕ) : List Link :=
  (List.range (K * K / 2)).flatMap fun j => (List.range (K / 2)).flatMap fun l =>
    [nupNc j (j % (K / 2) * K / 2 + l), ncNup (j % (K / 2) * K / 2 + l) j]

def initNetwork (K : ℕ) : List Link := serverLinks K ++ podLinks K ++ coreLinks K

/-- There is no virtual queue at a server. -/
def hasEndpoint (l : Link) : Bool :=
  match l.stop with
  | .host _ => false
  | _ => true

def queueAt (K : ℕ) (l : Link) : Option Element :=
  if l ∈ initNetwork K then some (.queue l) else none

def pipeAt (K : ℕ) (l : Link) : Option Element :=
  if l ∈ initNetwork K then some (.pipe l) else none

/-- `getRemoteEndpoint()` of a queue that exists. -/
def endpointAt (l : Link) : Option Element := if hasEndpoint l then some (.endpoint l) else none

/-- The pushes for one link. Only the last link of a route has no virtual queue. -/
def push (K : ℕ) (qt : QueueType) (last : Bool) (l : Link) : Option (List (Option Element)) :=
  if qt.isInput && !last then
    if queueAt K l = none then none else some [queueAt K l, pipeAt K l, endpointAt l]
  else some [queueAt K l, pipeAt K l]

def pushAll (K : ℕ) (qt : QueueType) : List Link → Option (List (Option Element))
  | [] => some []
  | l :: ls => (push K qt ls.isEmpty l).bind fun r => (pushAll K qt ls).map fun rs => r ++ rs

/-- Whether `check_non_null` lets a route pass: it looks at every second element. -/
def checkNonNull (r : List (Option Element)) : Bool :=
  (List.Ico 1 (r.length - 1)).all fun i => i % 2 = 0 || r[i]?.join.isSome

/-- A route with its reverse. -/
structure Route where
  out : List (Option Element)
  back : List (Option Element)
  deriving DecidableEq

/-- A route and its reverse are filled, and the route is checked. -/
def build (K : ℕ) (qt : QueueType) (ls : List Link × List Link) : Option Route :=
  (pushAll K qt ls.1).bind fun out => (pushAll K qt ls.2).bind fun back =>
    if checkNonNull out then some ⟨out, back⟩ else none

def Element.link : Element → Link
  | queue l => l
  | pipe l => l
  | endpoint l => l

/-- One link after the other from a node to another. -/
def Walk : Node → List Link → Node → Prop
  | a, [], b => a = b
  | a, l :: ls, b => l.start = a ∧ Walk l.stop ls b

/-- The hosts and switches along some links. -/
def visits : List Link → List Node
  | [] => []
  | l :: ls => l.start :: (l :: ls).map Link.stop

/-- What a route over links that exist is made of. -/
def elements (qt : QueueType) : List Link → List (Option Element)
  | [] => []
  | l :: ls =>
    (if qt.isInput && !ls.isEmpty then [some (.queue l), some (.pipe l), some (.endpoint l)]
      else [some (.queue l), some (.pipe l)]) ++ elements qt ls

theorem exists_of_mem_elements {qt : QueueType} {ls : List Link} {x : Option Element}
    (hx : x ∈ elements qt ls) : ∃ e : Element, x = some e ∧ e.link ∈ ls := by
  induction ls with
  | nil => cases hx
  | cons l ls ih =>
    rw [elements, List.mem_append] at hx
    rcases hx with hx | hx
    · have hx' : x ∈ [some (Element.queue l), some (.pipe l), some (.endpoint l)] := by
        split_ifs at hx
        · exact hx
        · simp only [List.mem_cons] at hx ⊢
          tauto
      simp only [List.mem_cons, List.not_mem_nil, or_false] at hx'
      rcases hx' with rfl | rfl | rfl <;> exact ⟨_, rfl, List.mem_cons_self⟩
    · obtain ⟨e, he, hmem⟩ := ih hx
      exact ⟨e, he, List.mem_cons_of_mem l hmem⟩

theorem none_notMem_elements (qt : QueueType) (ls : List Link) : none ∉ elements qt ls := by
  intro hmem
  obtain ⟨e, he, -⟩ := exists_of_mem_elements hmem
  cases he

theorem checkNonNull_eq_true {r : List (Option Element)} (h : none ∉ r) :
    checkNonNull r = true := by
  rw [checkNonNull, List.all_eq_true]
  intro i hi
  rw [List.Ico.mem] at hi
  have hlt : i < r.length := by omega
  rw [List.getElem?_eq_getElem hlt]
  cases helem : r[i] with
  | none => exact absurd (helem ▸ List.getElem_mem hlt) h
  | some e => simp

/-- Over links that exist the pushes give no null element. -/
theorem pushAll_eq {K : ℕ} (qt : QueueType) {ls : List Link} (hls : ∀ l ∈ ls, l ∈ initNetwork K)
    (hend : ∀ l ∈ ls.dropLast, hasEndpoint l = true) : pushAll K qt ls = some (elements qt ls) := by
  induction ls with
  | nil => rfl
  | cons l ls ih =>
    have hl := hls l List.mem_cons_self
    have hrest := fun l' hl' => hls l' (List.mem_cons_of_mem l hl')
    cases ls with
    | nil => simp [pushAll, push, elements, queueAt, pipeAt, hl]
    | cons l' ls =>
      have hl' := hend l List.mem_cons_self
      have hend' := fun l'' hl'' => hend l'' (List.mem_cons_of_mem l hl'')
      have hpush : push K qt false l =
          some (if qt.isInput then [some (.queue l), some (.pipe l), some (.endpoint l)]
            else [some (.queue l), some (.pipe l)]) := by
        cases hin : qt.isInput <;> simp [push, hin, queueAt, pipeAt, endpointAt, hl, hl']
      rw [pushAll, ih hrest hend', List.isEmpty_cons, hpush]
      cases hin : qt.isInput <;> simp [elements, hin]

/-- Links that exist, with a virtual queue behind each but the last, make a walk there and the
same walk back. -/
structure Joins (K src dest : ℕ) (ls : List Link × List Link) : Prop where
  created : ∀ l ∈ ls.1 ++ ls.2, l ∈ initNetwork K
  endpoint : ∀ l ∈ ls.1.dropLast ++ ls.2.dropLast, hasEndpoint l = true
  out : Walk (.host src) ls.1 (.host dest)
  back : Walk (.host dest) ls.2 (.host src)
  reverse : visits ls.2 = (visits ls.1).reverse

def routeOf (qt : QueueType) (ls : List Link × List Link) : Route :=
  ⟨elements qt ls.1, elements qt ls.2⟩

theorem Joins.build {K src dest : ℕ} {ls : List Link × List Link} (h : Joins K src dest ls)
    (qt : QueueType) : build K qt ls = some (routeOf qt ls) := by
  have hout := pushAll_eq qt (fun l hl => h.created l (List.mem_append_left _ hl))
    fun l hl => h.endpoint l (List.mem_append_left _ hl)
  have hback := pushAll_eq qt (fun l hl => h.created l (List.mem_append_right _ hl))
    fun l hl => h.endpoint l (List.mem_append_right _ hl)
  rw [FatTree.build, hout, Option.bind_some, hback, Option.bind_some,
    if_pos (checkNonNull_eq_true (none_notMem_elements qt _))]
  rfl

section Even

variable {m : ℕ}

section Pair

variable {src dest : ℕ} (hm : 0 < m) (hs : src < 2 * m ^ 3) (hd : dest < 2 * m ^ 3)

include hm hs hd

end Pair

end Even

/-! ## The numbers of nodes -/

end P4Survey.Ndp.FatTree
