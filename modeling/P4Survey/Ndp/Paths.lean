import Mathlib.Data.List.Perm.Basic
import P4Survey.Lib.System
import P4Survey.Ndp.Source

/-! # The paths of a source

`NdpSrc` of `ndp.cpp` sends the packets of a flow over its paths in the order of a
permutation that it draws anew at the end of each round. The strategy `PULL_BASED`
passes over paths with a bad score. The random numbers are arguments, and the index of
the current path is one of 16 bits.
-/

namespace P4Survey.Ndp
open Lib

/-- `permute_paths`: `random i` is the number drawn in turn `i` of the loop. -/
def permutePaths {α : Type*} (random : ℕ → ℕ) (paths : List α) : List α :=
  (List.range paths.length).foldl
    (fun l i => l.swap (random i % (paths.length - i)) (paths.length - 1 - i)) paths

theorem foldl_swap_perm {α : Type*} (f g : ℕ → ℕ) (is : List ℕ) (l : List α) :
    (is.foldl (fun l i => l.swap (f i) (g i)) l).Perm l := by
  induction is generalizing l with
  | nil => exact .refl l
  | cons i is ih => exact (ih _).trans (l.swap_perm _ _)

theorem permutePaths_perm {α : Type*} (random : ℕ → ℕ) (paths : List α) :
    (permutePaths random paths).Perm paths := foldl_swap_perm _ _ _ _

/-- The paths by their ids, in the order of the permutation, and their scores. -/
structure PathState where
  paths : List ℕ
  crtPath : ℕ
  pathAcks : ℕ → ℕ
  pathNacks : ℕ → ℕ
  badPath : ℕ → Bool
  avoidRatio : ℕ → ℕ
  avoidScore : ℕ → ℕ

namespace PathState

/-- `set_paths` for `n` paths. -/
def setPaths (random : ℕ → ℕ) (n : ℕ) : PathState :=
  ⟨permutePaths random (List.range n), 0, fun _ => 0, fun _ => 0, fun _ => false, fun _ => 0,
    fun _ => 0⟩

variable (s : PathState)

/-- Move on to the next path, and to a new permutation at the end of this one. -/
def nextPath (random : ℕ → ℕ) : PathState :=
  let c := (s.crtPath + 1) % 2 ^ 16
  if c = s.paths.length then { s with paths := permutePaths random s.paths, crtPath := 0 }
  else { s with crtPath := c }

/-- The id of the current path. -/
def pathId : Option ℕ := s.paths[s.crtPath]?

/-- The position of a path in the first round and in any later one. -/
structure Placed (n : ℕ) : Prop where
  perm : s.paths.Perm (List.range n)
  lt : s.crtPath < n
  lt' : s.crtPath < 2 ^ 16

variable {s} {n : ℕ}

theorem placed_setPaths (random : ℕ → ℕ) (hn : 0 < n) : (setPaths random n).Placed n :=
  ⟨permutePaths_perm random _, hn, Nat.two_pow_pos 16⟩

theorem Placed.length (h : s.Placed n) : s.paths.length = n := by
  rw [h.perm.length_eq, List.length_range]

/-- Within a round the order stays, after it the first path of another order is next. -/
theorem nextPath_cases (h : s.Placed n) (random : ℕ → ℕ) :
    (s.crtPath + 1 < n ∧ s.crtPath + 1 < 2 ^ 16 ∧
        s.nextPath random = { s with crtPath := s.crtPath + 1 }) ∨
      (¬(s.crtPath + 1 < n ∧ s.crtPath + 1 < 2 ^ 16) ∧ ∃ l : List ℕ, l.Perm s.paths ∧
        (2 ^ 16 ≤ n → l = s.paths) ∧ s.nextPath random = { s with paths := l, crtPath := 0 }) := by
  have hlen := h.length
  have hlt := h.lt
  have hlt' := h.lt'
  by_cases hin : s.crtPath + 1 < n ∧ s.crtPath + 1 < 2 ^ 16
  · left
    refine ⟨hin.1, hin.2, ?_⟩
    have hmod : (s.crtPath + 1) % 2 ^ 16 = s.crtPath + 1 := Nat.mod_eq_of_lt hin.2
    rw [nextPath, hmod, hlen]
    exact if_neg (Nat.ne_of_lt hin.1)
  · right
    refine ⟨hin, ?_⟩
    by_cases hend : s.crtPath + 1 < 2 ^ 16
    · have hmod : (s.crtPath + 1) % 2 ^ 16 = s.crtPath + 1 := Nat.mod_eq_of_lt hend
      refine ⟨_, permutePaths_perm random s.paths, fun _ => by omega, ?_⟩
      rw [nextPath, hmod, hlen]
      exact if_pos (by omega)
    · have hmod : (s.crtPath + 1) % 2 ^ 16 = 0 := by omega
      refine ⟨s.paths, .refl _, fun _ => rfl, ?_⟩
      rw [nextPath, hmod, hlen]
      exact if_neg (by omega)

theorem Placed.nextPath (h : s.Placed n) (random : ℕ → ℕ) : (s.nextPath random).Placed n := by
  rcases nextPath_cases h random with ⟨hn, hlt, he⟩ | ⟨-, l, hl, -, he⟩
  · rw [he]
    exact ⟨h.perm, hn, hlt⟩
  · rw [he]
    exact ⟨hl.trans h.perm, Nat.zero_lt_of_lt h.lt, Nat.two_pow_pos 16⟩

theorem Placed.nodup (h : s.Placed n) : s.paths.Nodup := h.perm.nodup_iff.mpr List.nodup_range

theorem Placed.exists_index (h : s.Placed n) {p : ℕ} (hp : p < n) : ∃ i : ℕ, s.paths[i]? = some p :=
  List.mem_iff_getElem?.mp (h.perm.mem_iff.mpr (List.mem_range.mpr hp))

theorem Placed.pathId (h : s.Placed n) : ∃ p, s.pathId = some p := by
  have hlt : s.crtPath < s.paths.length := by
    rw [h.length]
    exact h.lt
  exact ⟨_, List.getElem?_eq_getElem hlt⟩

/-- One more packet on the given path. -/
def countPath (path : Option ℕ) (count : ℕ → ℕ) : ℕ → ℕ :=
  path.elim count fun p => Function.update count p (count p + 1)

theorem countPath_apply (path : Option ℕ) (count : ℕ → ℕ) (p : ℕ) :
    countPath path count p = count p + if path = some p then 1 else 0 := by
  cases path with
  | none => rfl
  | some q =>
    rw [countPath, Option.elim_some, Function.update_apply]
    by_cases he : p = q
    · rw [if_pos he, if_pos (by rw [he]), he]
    · rw [if_neg he, if_neg fun h => he (Option.some.inj h).symm]
      rfl

/-- The paths up to the current one have been used once more in this round, and one path,
which the first round passed over, once less in all. -/
def Balanced (s : PathState) (used : ℕ → ℕ) : Prop :=
  ∃ k z, ∀ i p, s.paths[i]? = some p →
    used p + (if p = z then 1 else 0) = k + if i ≤ s.crtPath then 1 else 0

theorem balanced_setPaths (random : ℕ → ℕ) (hn : 0 < n) :
    (setPaths random n).Balanced fun _ => 0 := by
  have hplaced := placed_setPaths random hn
  obtain ⟨z, hz⟩ := hplaced.pathId
  refine ⟨0, z, fun i p hp => ?_⟩
  have hiff : p = z ↔ i ≤ (setPaths random n).crtPath := by
    constructor
    · rintro rfl
      have hlt : i < (setPaths random n).paths.length := (List.getElem?_eq_some_iff.mp hp).1
      exact ((List.getElem?_inj hlt hplaced.nodup).mp (hp.trans hz.symm)).le
    · intro hi
      obtain rfl : i = 0 := Nat.le_zero.mp hi
      exact Option.some.inj (hp.symm.trans hz)
  simp only [hiff]

/-- The next path is used. -/
theorem Balanced.nextPath {used : ℕ → ℕ} (hb : s.Balanced used) (h : s.Placed n)
    (hn : n ≤ 2 ^ 16) (random : ℕ → ℕ) :
    (s.nextPath random).Balanced (countPath (s.nextPath random).pathId used) := by
  obtain ⟨k, z, hk⟩ := hb
  have hplaced := h.nextPath random
  have hiff {i p : ℕ} (hp : (s.nextPath random).paths[i]? = some p) :
      (s.nextPath random).pathId = some p ↔ i = (s.nextPath random).crtPath := by
    have hlt := (List.getElem?_eq_some_iff.mp hp).1
    rw [← hp, eq_comm]
    exact List.getElem?_inj hlt hplaced.nodup
  rcases nextPath_cases h random with ⟨-, -, he⟩ | ⟨hend, l, hl, -, he⟩
  · refine ⟨k, z, fun i p hp => ?_⟩
    have hold := hk i p (by rw [he] at hp; exact hp)
    simp only [countPath_apply, hiff hp]
    rw [he]
    dsimp only
    split_ifs at hold ⊢ <;> omega
  · refine ⟨k + 1, z, fun i p hp => ?_⟩
    have hmem : p ∈ s.paths := by
      rw [he] at hp
      exact hl.mem_iff.mp (List.mem_of_getElem? hp)
    obtain ⟨j, hj⟩ := List.mem_iff_getElem?.mp hmem
    have hold := hk j p hj
    have hlt := (List.getElem?_eq_some_iff.mp hj).1
    have hle : j ≤ s.crtPath := by
      rw [h.length] at hlt
      omega
    rw [if_pos hle] at hold
    simp only [countPath_apply, hiff hp]
    rw [he]
    dsimp only
    split_ifs at hold ⊢ <;> omega

theorem Balanced.le {used : ℕ → ℕ} (hb : s.Balanced used) (h : s.Placed n) {p q : ℕ}
    (hp : p < n) (hq : q < n) : used p ≤ used q + 2 := by
  obtain ⟨k, z, hk⟩ := hb
  obtain ⟨i, hi⟩ := h.exists_index hp
  obtain ⟨j, hj⟩ := h.exists_index hq
  have hpi := hk i p hi
  have hqj := hk j q hj
  split_ifs at hpi hqj <;> omega

end PathState

/-- A source with the strategy `SCATTER_PERMUTE`, and how many packets it has sent over
each path. -/
structure ScatterSource where
  src : Source
  route : PathState
  pathCountsNew : ℕ → ℕ
  pathCountsRtx : ℕ → ℕ

namespace ScatterSource

variable (F : Flow)

/-- A retransmission and new data take the next path. -/
def sendPacket (pacerNo : ℕ) (random : ℕ → ℕ) (s : ScatterSource) : ScatterSource :=
  let src := (s.src.sendPacket F pacerNo).1
  let route := s.route.nextPath random
  match s.src.rtxQueue with
  | _ :: _ =>
    { s with
      src := src
      route := route
      pathCountsRtx := PathState.countPath route.pathId s.pathCountsRtx }
  | [] =>
    if s.src.NoNewData F then s
    else
      { s with
        src := src
        route := route
        pathCountsNew := PathState.countPath route.pathId s.pathCountsNew }

/-- How often a path has been used. -/
def used (s : ScatterSource) (p : ℕ) : ℕ := s.pathCountsNew p + s.pathCountsRtx p

/-- A call of `send_packet`, or anything else that the source does in between. -/
inductive Label where
  | send (pacerNo : ℕ) (random : ℕ → ℕ)
  | other (src : Source)

/-- A flow with `n` paths and without retransmission timeouts. -/
def system (n : ℕ) : System ScatterSource Label where
  init s := (∃ random, s.route = .setPaths random n) ∧ s.used = fun _ => 0
  enabled _ _ := True
  next s
    | .send pacerNo random => s.sendPacket F pacerNo random
    | .other src => { s with src := src }

variable {F} {s : ScatterSource} {n : ℕ}

/-- A call takes the next path, or it sends nothing. -/
theorem sendPacket_cases (pacerNo : ℕ) (random : ℕ → ℕ) (s : ScatterSource) :
    s.sendPacket F pacerNo random = s ∨
      ((s.sendPacket F pacerNo random).route = s.route.nextPath random ∧
        (s.sendPacket F pacerNo random).used =
          PathState.countPath (s.route.nextPath random).pathId s.used) := by
  cases hr : s.src.rtxQueue with
  | cons p q =>
    right
    simp only [sendPacket, hr, true_and]
    funext p
    simp only [used, PathState.countPath_apply]
    omega
  | nil =>
    simp only [sendPacket, hr]
    split_ifs
    · exact .inl rfl
    · right
      refine ⟨rfl, ?_⟩
      funext p
      simp only [used, PathState.countPath_apply]
      omega

theorem balanced_reachable (hpos : 0 < n) (hn : n ≤ 2 ^ 16) (h : (system F n).Reachable s) :
    s.route.Placed n ∧ s.route.Balanced s.used := by
  induction h with
  | init hs =>
    obtain ⟨⟨random, hroute⟩, hused⟩ := hs
    rw [hroute, hused]
    exact ⟨PathState.placed_setPaths random hpos, PathState.balanced_setPaths random hpos⟩
  | @step s a _ _ ih =>
    obtain ⟨hplaced, hbalanced⟩ := ih
    cases a with
    | other src => exact ⟨hplaced, hbalanced⟩
    | send pacerNo random =>
      change (s.sendPacket F pacerNo random).route.Placed n ∧
        (s.sendPacket F pacerNo random).route.Balanced (s.sendPacket F pacerNo random).used
      rcases sendPacket_cases pacerNo random s with he | ⟨hroute, hused⟩
      · rw [he]
        exact ⟨hplaced, hbalanced⟩
      · rw [hroute, hused]
        exact ⟨hplaced.nextPath random, hbalanced.nextPath hplaced hn random⟩

end ScatterSource

/-- Every draw gives a permutation of the paths, and no path is ever used three times more
often than another one. The sink asserts that there are at most 256 paths. -/
theorem scatter_even :
    (∀ (random : ℕ → ℕ) (paths : List ℕ), (permutePaths random paths).Perm paths) ∧
      ∀ (F : Flow) (n : ℕ), 0 < n → n ≤ 2 ^ 16 → ∀ s, (ScatterSource.system F n).Reachable s →
        ∀ p < n, ∀ q < n, s.used p ≤ s.used q + 2 := by
  refine ⟨fun random paths => permutePaths_perm random paths, ?_⟩
  intro F n hpos hn s hs p hp q hq
  obtain ⟨hplaced, hbalanced⟩ := ScatterSource.balanced_reachable hpos hn hs
  exact hbalanced.le hplaced hp hq

/-- With three paths the third packet makes a difference of two. -/
theorem scatter_even_three :
    ∃ s, (ScatterSource.system ⟨0, 1, by decide, by decide, 0, by decide, 9, by decide, false⟩
        3).Reachable s ∧ s.used 2 = 2 ∧ s.used 1 = 0 ∧ s.used 2 ≤ s.used 1 + 2 := by
  have hstart : (ScatterSource.system ⟨0, 1, by decide, by decide, 0, by decide, 9, by decide, false⟩
      3).Reachable ⟨.initial, .setPaths (fun _ => 0) 3, fun _ => 0, fun _ => 0⟩ :=
    .init ⟨⟨_, rfl⟩, rfl⟩
  have hrun := hstart.run (l := List.replicate 3 (.send 0 fun _ => 0))
    (System.allowed_replicate (fun _ => trivial) 3 _)
  refine ⟨_, hrun, by decide, by decide, ?_⟩
  exact scatter_even.2 _ 3 (by decide) (by decide) _ hrun 2 (by decide) 1 (by decide)

namespace PathState

variable (s : PathState)

/-- The feedback of one packet and what it does to the score of its path. The product with
1.25 of two numbers is compared in quarters. -/
def countFeedback (path : ℕ) (fb : FeedbackType) : PathState :=
  let acks := if fb = .ack then Function.update s.pathAcks path (s.pathAcks path + 1) else s.pathAcks
  let nacks := match fb with
    | .nack => Function.update s.pathNacks path (s.pathNacks path + 1)
    | .bounce => Function.update s.pathNacks path (s.pathNacks path + 3)
    | _ => s.pathNacks
  let sz := s.paths.length
  let acksMean := ((List.range sz).map acks).sum / sz
  let nacksMean := ((List.range sz).map nacks).sum / sz
  let nackRatio := if 10 < acks path then nacks path * 100 / acks path else 0
  let meanNackRatio := if 0 < acksMean then nacksMean * 100 / acksMean else 100
  let bad : Bool := 100 < acks path + nacks path ∧ meanNackRatio * 5 < nackRatio * 4 ∧ 30 < nackRatio
  let ratio := s.avoidRatio path
  { s with
    pathAcks := acks
    pathNacks := nacks
    badPath := Function.update s.badPath path bad
    avoidRatio := Function.update s.avoidRatio path (if bad then ratio + 1 else ratio - 1) }

/-- The loop of `choose_route` for `PULL_BASED`. Turn `i` moves on to the next path and takes
it if its score is 0; `random i` are the numbers drawn then. -/
def chooseLoop (random : ℕ → ℕ → ℕ) : ℕ → ℕ → PathState → Option (ℕ × PathState)
  | 0, _, _ => none
  | fuel + 1, i, s =>
    let s := s.nextPath (random i)
    match s.pathId with
    | none => none
    | some path =>
      let s := { s with avoidScore := Function.update s.avoidScore path (s.avoidRatio path) }
      if 0 < s.avoidScore path then
        chooseLoop random fuel (i + 1)
          { s with avoidScore := Function.update s.avoidScore path (s.avoidScore path - 1) }
      else some (path, s)

/-- The path that is chosen, if `fuel` turns of the loop are enough. The only path of a
flow is taken without a look at its score. -/
def chooseRoute (random : ℕ → ℕ → ℕ) (fuel : ℕ) : Option (ℕ × PathState) :=
  if s.paths.length = 1 then some (0, s) else chooseLoop random fuel 0 s

/-- Among the paths that the index can reach there is one that is not to be avoided. -/
def HasGoodPath : Prop := ∃ i < 2 ^ 16, ∃ p, s.paths[i]? = some p ∧ s.avoidRatio p = 0

variable {s} {n : ℕ} {random : ℕ → ℕ → ℕ}

/-- The states of the loop differ from those of the round robin in scores only. -/
structure Like (s t : PathState) : Prop where
  paths : t.paths = s.paths
  crtPath : t.crtPath = s.crtPath
  avoidRatio : t.avoidRatio = s.avoidRatio

theorem Placed.like {t : PathState} (h : s.Placed n) (hl : Like s t) : t.Placed n := by
  refine ⟨?_, ?_, ?_⟩
  · rw [hl.paths]
    exact h.perm
  · rw [hl.crtPath]
    exact h.lt
  · rw [hl.crtPath]
    exact h.lt'

theorem avoidRatio_nextPath (s : PathState) (random : ℕ → ℕ) :
    (s.nextPath random).avoidRatio = s.avoidRatio := by
  unfold nextPath
  dsimp only
  split_ifs <;> rfl

variable (random) in
/-- One turn takes the next path or goes on from there. -/
theorem chooseLoop_turn (h : s.Placed n) (i : ℕ) :
    ∃ p t, (s.nextPath (random i)).pathId = some p ∧ Like (s.nextPath (random i)) t ∧
      (s.avoidRatio p = 0 → ∀ fuel, (chooseLoop random (fuel + 1) i s).isSome) ∧
      (s.avoidRatio p ≠ 0 →
        ∀ fuel, chooseLoop random (fuel + 1) i s = chooseLoop random fuel (i + 1) t) := by
  obtain ⟨p, hp⟩ := (h.nextPath (random i)).pathId
  rw [← avoidRatio_nextPath s (random i)]
  have hturn (fuel : ℕ) : chooseLoop random (fuel + 1) i s =
      let t := s.nextPath (random i)
      if 0 < t.avoidRatio p then
        chooseLoop random fuel (i + 1)
          { t with
            avoidScore := Function.update (Function.update t.avoidScore p (t.avoidRatio p)) p
              (t.avoidRatio p - 1) }
      else some (p, { t with avoidScore := Function.update t.avoidScore p (t.avoidRatio p) }) := by
    rw [chooseLoop]
    simp only [hp, Function.update_self]
  generalize s.nextPath (random i) = t at hp hturn ⊢
  refine ⟨p, _, hp, ⟨?_, ?_, ?_⟩, fun h0 fuel => ?_, fun h0 fuel => (hturn fuel).trans
    (if_pos (Nat.pos_of_ne_zero h0))⟩
  · rfl
  · rfl
  · rfl
  · rw [hturn]
    dsimp only
    rw [if_neg (by omega)]
    rfl

theorem Placed.nextPath_of_ahead {d p : ℕ} (h : s.Placed n) (hd : s.crtPath + 1 + d < 2 ^ 16)
    (hp : s.paths[s.crtPath + 1 + d]? = some p) {r : ℕ → ℕ} :
    s.nextPath r = { s with crtPath := s.crtPath + 1 } := by
  have hlt := (List.getElem?_eq_some_iff.mp hp).1
  rw [h.length] at hlt
  rcases nextPath_cases h r with ⟨-, -, he⟩ | ⟨hend, -⟩
  · exact he
  · exact absurd ⟨by omega, by omega⟩ hend

def Halts (random : ℕ → ℕ → ℕ) (i : ℕ) (s : PathState) : Prop :=
  ∃ fuel, (chooseLoop random fuel i s).isSome

/-- A good path that is ahead in this round is reached. -/
theorem halts_of_ahead {d i p : ℕ} (h : s.Placed n) (hd : s.crtPath + 1 + d < 2 ^ 16)
    (hp : s.paths[s.crtPath + 1 + d]? = some p) (h0 : s.avoidRatio p = 0) : Halts random i s := by
  induction d generalizing s i with
  | zero =>
    obtain ⟨q, t, hq, hlike, hstop, -⟩ := chooseLoop_turn random h i
    rw [h.nextPath_of_ahead hd hp] at hq
    obtain rfl : q = p := Option.some.inj (hq.symm.trans hp)
    exact ⟨1, hstop h0 0⟩
  | succ d ih =>
    obtain ⟨q, t, hq, hlike, hstop, hgo⟩ := chooseLoop_turn random h i
    by_cases hq0 : s.avoidRatio q = 0
    · exact ⟨1, hstop hq0 0⟩
    have hplaced := (h.nextPath (random i)).like hlike
    rw [h.nextPath_of_ahead hd hp] at hlike
    have hat : t.crtPath + 1 + d = s.crtPath + 1 + (d + 1) := by
      rw [hlike.crtPath]
      dsimp only
      omega
    obtain ⟨fuel, hfuel⟩ := ih (i := i + 1) hplaced (by rw [hat]; exact hd)
      (by rw [hat, hlike.paths]; exact hp) (by rw [hlike.avoidRatio]; exact h0)
    exact ⟨fuel + 1, by rw [hgo hq0]; exact hfuel⟩

/-- With up to `2 ^ 16` paths the index reaches all of them. -/
theorem hasGoodPath_iff (hlen : s.paths.length ≤ 2 ^ 16) :
    s.HasGoodPath ↔ ∃ p ∈ s.paths, s.avoidRatio p = 0 := by
  constructor
  · rintro ⟨i, -, p, hp, h0⟩
    exact ⟨p, List.mem_of_getElem? hp, h0⟩
  · rintro ⟨p, hp, h0⟩
    obtain ⟨i, hi⟩ := List.mem_iff_getElem?.mp hp
    have hlt := (List.getElem?_eq_some_iff.mp hi).1
    exact ⟨i, hlt.trans_le hlen, p, hi, h0⟩

theorem Placed.hasGoodPath_nextPath (h : s.Placed n) (r : ℕ → ℕ) :
    (s.nextPath r).HasGoodPath ↔ s.HasGoodPath := by
  rcases nextPath_cases h r with ⟨-, -, he⟩ | ⟨-, l, hl, heq, he⟩
  · rw [he]
    rfl
  · rw [he]
    by_cases hn : 2 ^ 16 ≤ n
    · rw [heq hn]
      rfl
    · have hlen : s.paths.length ≤ 2 ^ 16 := by
        rw [h.length]
        omega
      rw [hasGoodPath_iff hlen, hasGoodPath_iff (by rw [← hl.length_eq] at hlen; exact hlen)]
      simp only [hl.mem_iff]

theorem Like.hasGoodPath_iff {t : PathState} (hl : Like s t) : t.HasGoodPath ↔ s.HasGoodPath := by
  rw [HasGoodPath, HasGoodPath, hl.paths, hl.avoidRatio]

/-- From any place of a round a good path is reached, in this round or in the next one. -/
theorem halts_of_good {d i : ℕ} (h : s.Placed n) (hd : s.crtPath + d + 1 = min n (2 ^ 16))
    (hgood : s.HasGoodPath) : Halts random i s := by
  induction d generalizing s i with
  | zero =>
    obtain ⟨q, t, hq, hlike, hstop, hgo⟩ := chooseLoop_turn random h i
    by_cases hq0 : s.avoidRatio q = 0
    · exact ⟨1, hstop hq0 0⟩
    have hplaced := (h.nextPath (random i)).like hlike
    -- the next round starts at the path `q`, and the good one comes later
    have hzero : t.crtPath = 0 := by
      rw [hlike.crtPath]
      rcases nextPath_cases h (random i) with ⟨hn, hlt, -⟩ | ⟨-, l, -, -, he⟩
      · omega
      · rw [he]
    have hratio : t.avoidRatio = s.avoidRatio := by
      rw [hlike.avoidRatio, avoidRatio_nextPath]
    obtain ⟨j, hj, p, hp, hp0⟩ :=
      hlike.hasGoodPath_iff.mpr ((h.hasGoodPath_nextPath (random i)).mpr hgood)
    have hj0 : j ≠ 0 := by
      rintro rfl
      have hqt : t.paths[0]? = some q := by
        rw [← hzero, hlike.paths, hlike.crtPath]
        exact hq
      obtain rfl : p = q := Option.some.inj (hp.symm.trans hqt)
      rw [hratio] at hp0
      exact hq0 hp0
    have hjd : t.crtPath + 1 + (j - 1) = j := by omega
    have hhalts : Halts random (i + 1) t :=
      halts_of_ahead hplaced (by rw [hjd]; exact hj) (by rw [hjd]; exact hp) hp0
    obtain ⟨fuel, hfuel⟩ := hhalts
    exact ⟨fuel + 1, by rw [hgo hq0]; exact hfuel⟩
  | succ d ih =>
    obtain ⟨q, t, hq, hlike, hstop, hgo⟩ := chooseLoop_turn random h i
    by_cases hq0 : s.avoidRatio q = 0
    · exact ⟨1, hstop hq0 0⟩
    have hnext : (s.nextPath (random i)).crtPath = s.crtPath + 1 := by
      rcases nextPath_cases h (random i) with ⟨-, -, he⟩ | ⟨hend, -⟩
      · rw [he]
      · omega
    have hgood' := hlike.hasGoodPath_iff.mpr ((h.hasGoodPath_nextPath (random i)).mpr hgood)
    obtain ⟨fuel, hfuel⟩ := ih (i := i + 1) ((h.nextPath (random i)).like hlike)
      (by rw [hlike.crtPath, hnext]; omega) hgood'
    exact ⟨fuel + 1, by rw [hgo hq0]; exact hfuel⟩

/-- Without a good path the loop goes on. -/
theorem chooseLoop_eq_none (h : s.Placed n) (hgood : ¬s.HasGoodPath) (i fuel : ℕ) :
    chooseLoop random fuel i s = none := by
  induction fuel generalizing s i with
  | zero => rfl
  | succ fuel ih =>
    obtain ⟨q, t, hq, hlike, -, hgo⟩ := chooseLoop_turn random h i
    have hplaced := h.nextPath (random i)
    have hgood' : ¬(s.nextPath (random i)).HasGoodPath :=
      mt (h.hasGoodPath_nextPath (random i)).mp hgood
    have hq0 : s.avoidRatio q ≠ 0 := by
      intro h0
      rw [← avoidRatio_nextPath s (random i)] at h0
      exact hgood' ⟨_, hplaced.lt', q, hq, h0⟩
    rw [hgo hq0]
    exact ih (hplaced.like hlike) (mt hlike.hasGoodPath_iff.mp hgood') (i + 1)

theorem chooseLoop_placed {fuel i : ℕ} {r : ℕ × PathState} (h : s.Placed n)
    (hr : chooseLoop random fuel i s = some r) : r.2.Placed n := by
  induction fuel generalizing s i with
  | zero => cases hr
  | succ fuel ih =>
    have hplaced := h.nextPath (random i)
    rw [chooseLoop] at hr
    generalize s.nextPath (random i) = t at hplaced hr
    obtain ⟨p, hp⟩ := hplaced.pathId
    simp only [hp] at hr
    split at hr
    · refine ih ?_ hr
      exact hplaced.like ⟨rfl, rfl, rfl⟩
    · obtain rfl := Option.some.inj hr
      exact hplaced.like ⟨rfl, rfl, rfl⟩

theorem chooseRoute_placed {fuel : ℕ} {r : ℕ × PathState} (h : s.Placed n)
    (hr : s.chooseRoute random fuel = some r) : r.2.Placed n := by
  rw [chooseRoute] at hr
  split_ifs at hr
  · obtain rfl := Option.some.inj hr
    exact h
  · exact chooseLoop_placed h hr

/-- The feedback of a packet, or a call of `choose_route` that returns. -/
inductive Label where
  | feedback (path : ℕ) (fb : FeedbackType)
  | choose (random : ℕ → ℕ → ℕ) (fuel : ℕ)

/-- The path scores of a flow with `n` paths and the strategy `PULL_BASED`. -/
def system (n : ℕ) : System PathState Label where
  init s := ∃ random, s = setPaths random n
  enabled s
    | .feedback path fb => path < n ∧ fb ≠ .unknown
    | .choose random fuel => (s.chooseRoute random fuel).isSome
  next s
    | .feedback path fb => s.countFeedback path fb
    | .choose random fuel => ((s.chooseRoute random fuel).map Prod.snd).getD s

theorem placed_reachable (hn : 0 < n) (h : (system n).Reachable s) : s.Placed n := by
  induction h with
  | init hs =>
    obtain ⟨r, rfl⟩ := hs
    exact placed_setPaths r hn
  | @step s a _ he ih =>
    cases a with
    | feedback path fb => exact ⟨ih.perm, ih.lt, ih.lt'⟩
    | choose random fuel =>
      obtain ⟨r, hr⟩ := Option.isSome_iff_exists.mp he
      have hnext : (system n).next s (.choose random fuel) = r.2 := by
        change ((s.chooseRoute random fuel).map Prod.snd).getD s = r.2
        rw [hr]
        rfl
      rw [hnext]
      exact chooseRoute_placed ih hr

end PathState

/-- After any feedback, the choice of a path comes to an end if and only if there is only one
path or one that is not to be avoided. -/
theorem chooseRoute_returns_iff {n : ℕ} (hn : 0 < n) {s : PathState}
    (hs : (PathState.system n).Reachable s) (random : ℕ → ℕ → ℕ) :
    (∃ fuel, (s.chooseRoute random fuel).isSome) ↔ n = 1 ∨ s.HasGoodPath := by
  have hplaced := PathState.placed_reachable hn hs
  have hlen := hplaced.length
  have hlt := hplaced.lt
  have hlt' := hplaced.lt'
  by_cases h1 : n = 1
  · refine iff_of_true ⟨0, ?_⟩ (.inl h1)
    rw [PathState.chooseRoute, if_pos (hlen.trans h1)]
    rfl
  · have hchoose (fuel : ℕ) : s.chooseRoute random fuel = PathState.chooseLoop random fuel 0 s :=
      if_neg fun he => h1 (hlen.symm.trans he)
    simp only [hchoose, or_iff_right h1]
    constructor
    · rintro ⟨fuel, hfuel⟩
      by_contra hgood
      rw [PathState.chooseLoop_eq_none hplaced hgood] at hfuel
      cases hfuel
    · intro hgood
      exact PathState.halts_of_good (d := min n (2 ^ 16) - 1 - s.crtPath) hplaced (by omega) hgood

/-- At the start every path is good. -/
theorem chooseRoute_returns_start :
    (PathState.system 2).Reachable (.setPaths (fun _ => 0) 2) ∧
      ∃ fuel, ((PathState.setPaths (fun _ => 0) 2).chooseRoute (fun _ _ => 0) fuel).isSome := by
  have hs : (PathState.system 2).Reachable (.setPaths (fun _ => 0) 2) := .init ⟨_, rfl⟩
  refine ⟨hs, (chooseRoute_returns_iff (by decide) hs _).mpr (.inr ?_)⟩
  exact ⟨0, by decide, 1, rfl, rfl⟩

/-- Path 0 is bad at a time when path 1 is not, and stays so when path 1 gets worse. -/
def badHistory : List PathState.Label :=
  List.replicate 11 (.feedback 0 .ack) ++ List.replicate 11 (.feedback 1 .ack) ++
    List.replicate 30 (.feedback 0 .bounce) ++ List.replicate 51 (.feedback 1 .bounce)

/-- After that history no path is good, and the choice does not come to an end. -/
theorem chooseRoute_stuck : ¬∀ n, 0 < n → ∀ s, (PathState.system n).Reachable s →
    ∀ random, ∃ fuel, (s.chooseRoute random fuel).isSome := by
  intro hall
  have hallowed : (PathState.system 2).Allowed (.setPaths (fun _ => 0) 2) badHistory := by
    have hfeedback (path : ℕ) (fb : FeedbackType) (hp : path < 2) (hfb : fb ≠ .unknown) (m : ℕ)
        (s : PathState) : (PathState.system 2).Allowed s (List.replicate m (.feedback path fb)) :=
      System.allowed_replicate (S := PathState.system 2) (a := .feedback path fb)
        (fun _ => ⟨hp, hfb⟩) m s
    rw [badHistory, System.allowed_append, System.allowed_append, System.allowed_append]
    refine ⟨⟨⟨?_, ?_⟩, ?_⟩, ?_⟩
    · exact hfeedback 0 .ack (by decide) (by decide) 11 _
    · exact hfeedback 1 .ack (by decide) (by decide) 11 _
    · exact hfeedback 0 .bounce (by decide) (by decide) 30 _
    · exact hfeedback 1 .bounce (by decide) (by decide) 51 _
  have hstart : (PathState.system 2).Reachable (.setPaths (fun _ => 0) 2) := .init ⟨_, rfl⟩
  have hs := hstart.run hallowed
  have hratio : ∀ p < 2, ((PathState.system 2).run (.setPaths (fun _ => 0) 2)
      badHistory).avoidRatio p ≠ 0 := by
    decide +kernel
  generalize (PathState.system 2).run (.setPaths (fun _ => 0) 2) badHistory = s at hs hratio
  have hplaced := PathState.placed_reachable (by decide) hs
  have hgood : ¬s.HasGoodPath := by
    rw [PathState.hasGoodPath_iff (by rw [hplaced.length]; decide)]
    rintro ⟨p, hp, h0⟩
    exact hratio p (List.mem_range.mp (hplaced.perm.mem_iff.mp hp)) h0
  obtain ⟨fuel, hfuel⟩ := hall 2 (by decide) s hs fun _ _ => 0
  rw [PathState.chooseRoute, if_neg (by rw [hplaced.length]; decide),
    PathState.chooseLoop_eq_none hplaced hgood] at hfuel
  cases hfuel

end P4Survey.Ndp
