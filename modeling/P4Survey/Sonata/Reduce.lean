import P4Survey.Lib.Register
import P4Survey.Lib.Wire

/-! # Reduce in the data plane of Sonata

A query is cleaned, so that a Reduce takes the threshold of the Filter after
it, and each operator then becomes a piece of control flow. The language of
the generated code has actions on metadata and one register, tables without
keys, which run their default action, and conditions.
-/

namespace P4Survey.Sonata
open Lib

section Queries

/-- The fields that operators name: those of packets and the ones of Sonata. -/
inductive Fld (F : Type)
  | qid
  | count
  | index
  | ts
  | payload
  | raw (f : F)
  deriving DecidableEq

/-- What a Reduce adds up: the first of its values. -/
inductive Summand (F : Type)
  | count
  | field (f : F)
  deriving DecidableEq

inductive FilterFunc
  | geq
  | other
  deriving DecidableEq

structure Reduce (F : Type) where
  keys : List (Fld F)
  values : Summand F
  threshold : ℕ
  deriving DecidableEq

inductive Operator (F : Type)
  | map (keys : List (Fld F))
  | distinct (keys : List (Fld F))
  | filter (keys : List (Fld F)) (func : FilterFunc) (arg : ℕ)
  | join
  | reduce (r : Reduce F)
  deriving DecidableEq

variable {F : Type} [DecidableEq F]

def withoutTs (keys : List (Fld F)) : List (Fld F) := keys.filter (· ≠ .ts)

def Operator.isFilter : Operator F → Bool
  | .filter .. => true
  | _ => false

/-- A Reduce takes its threshold from the operator after it if that is a Filter with `geq`. -/
def mergedThreshold : List (Operator F) → Option ℕ
  | .filter _ .geq arg :: _ => some arg
  | _ => none

/-- The loop of `get_clean_application` over the operators of one query. -/
def cleanOperators (skipNextFilter : Bool) : List (Operator F) → List (Operator F)
  | [] => []
  | op :: rest =>
    if skipNextFilter && op.isFilter then cleanOperators false rest
    else
      match op with
      | .map keys => .map (withoutTs keys) :: cleanOperators false rest
      | .distinct keys => .distinct (withoutTs keys) :: cleanOperators false rest
      | .filter keys func arg => .filter (withoutTs keys) func arg :: cleanOperators false rest
      | .join => .join :: cleanOperators false rest
      | .reduce r =>
        -- a new Reduce has threshold 1
        .reduce ⟨withoutTs r.keys, r.values, (mergedThreshold rest).getD 1⟩ ::
          cleanOperators (mergedThreshold rest).isSome rest

omit [DecidableEq F] in
theorem mergedThreshold_append_reduce (l : List (Operator F)) (hl : l ≠ []) (r : Reduce F)
    (rest : List (Operator F)) :
    mergedThreshold (l ++ .reduce r :: rest) = mergedThreshold l := by
  cases l with
  | nil => exact absurd rfl hl
  | cons op l =>
    cases op with
    | filter _ func _ => cases func <;> rfl
    | map _ => rfl
    | distinct _ => rfl
    | join => rfl
    | reduce _ => rfl

/-- Cleaning merges a Reduce and the Filter after it, wherever they stand. -/
theorem cleanOperators_merge (pre post : List (Operator F)) (r : Reduce F) (keys : List (Fld F))
    (arg : ℕ) (skip : Bool) (hskip : pre = [] → skip = false) :
    cleanOperators skip (pre ++ .reduce r :: .filter keys .geq arg :: post) =
      cleanOperators skip pre ++
        .reduce ⟨withoutTs r.keys, r.values, arg⟩ :: cleanOperators false post := by
  induction pre generalizing skip with
  | nil =>
    rw [hskip rfl]
    rfl
  | cons op pre ih =>
    simp only [List.cons_append, cleanOperators]
    by_cases hfilter : (skip && op.isFilter) = true
    · rw [if_pos hfilter, if_pos hfilter, ih false fun _ => rfl]
    · rw [if_neg hfilter, if_neg hfilter]
      cases op with
      | map _ => rw [ih false fun _ => rfl, List.cons_append]
      | distinct _ => rw [ih false fun _ => rfl, List.cons_append]
      | filter _ _ _ => rw [ih false fun _ => rfl, List.cons_append]
      | join => rw [ih false fun _ => rfl, List.cons_append]
      | reduce r' =>
        dsimp only
        by_cases hpre : pre = []
        · subst hpre
          rfl
        · rw [mergedThreshold_append_reduce pre hpre, ih _ fun h => absurd h hpre, List.cons_append]

end Queries

section Language

/-- The metadata of the generated program: the fields that operators name, the fields of the
Reduce and the marks of the query. -/
inductive Ref (F : Type)
  | init (fld : Fld F)
  | value
  | index
  | drop
  | satisfied
  | clone
  deriving DecidableEq

/-- A number or a named field. -/
inductive Operand (F : Type)
  | const (n : ℕ)
  | init (fld : Fld F)
  deriving DecidableEq

inductive Expr (F : Type)
  | operand (o : Operand F)
  | ref (r : Ref F)
  | plus (r : Ref F) (o : Operand F)
  deriving DecidableEq

inductive Primitive (F : Type)
  | modifyField (dst : Ref F) (src : Expr F)
  | modifyFieldWithHashBasedOffset (dst : Ref F) (base : ℕ) (fields : List (Ref F)) (size : ℕ)
  | registerRead (dst idx : Ref F)
  | registerWrite (idx src : Ref F)

inductive Cmp
  | eq
  | ne
  | gt
  deriving DecidableEq

/-- Control flow. Applying a table without keys runs its default action. -/
inductive Ctrl (F : Type)
  | skip
  | apply (action : List (Primitive F))
  | seq (a b : Ctrl F)
  | ite (lhs : Ref F) (cmp : Cmp) (rhs : Operand F) (a b : Ctrl F)

variable {F : Type} [DecidableEq F] (size : F → ℕ) (hash : List Bool → ℕ)

def Fld.width : Fld F → ℕ
  | .qid | .count | .index => 16
  | .ts | .payload => 0
  | .raw f => size f

def Ref.width : Ref F → ℕ
  | .init fld => fld.width size
  | .value => 32
  | .index => 16
  | .drop | .satisfied | .clone => 1

structure State (F : Type) where
  fields : Ref F → ℕ
  register : Register 32 65536

def State.set (s : State F) (dst : Ref F) (v : ℕ) : State F :=
  { s with fields := Function.update s.fields dst (v % 2 ^ dst.width size) }

def Operand.eval (s : State F) : Operand F → ℕ
  | .const n => n
  | .init fld => s.fields (.init fld)

def Expr.eval (s : State F) : Expr F → ℕ
  | .operand o => o.eval s
  | .ref r => s.fields r
  | .plus r o => s.fields r + o.eval s

/-- The bits of fields, one after the other. -/
def State.bits (s : State F) (fields : List (Ref F)) : List Bool :=
  fields.flatMap fun r => bitsOf (r.width size) (s.fields r)

def Primitive.exec (s : State F) : Primitive F → State F
  | .modifyField dst src => s.set size dst (src.eval s)
  | .modifyFieldWithHashBasedOffset dst base fields n =>
    s.set size dst (base + hash (s.bits size fields) % n)
  | .registerRead dst idx => s.set size dst (s.register.read (s.fields idx)).toNat
  | .registerWrite idx src =>
    { s with register := s.register.write (s.fields idx) (BitVec.ofNat 32 (s.fields src)) }

def Cmp.holds : Cmp → ℕ → ℕ → Prop
  | .eq, a, b => a = b
  | .ne, a, b => a ≠ b
  | .gt, a, b => a > b

instance (c : Cmp) (a b : ℕ) : Decidable (c.holds a b) :=
  match c with
  | .eq => inferInstanceAs (Decidable (a = b))
  | .ne => inferInstanceAs (Decidable (a ≠ b))
  | .gt => inferInstanceAs (Decidable (a > b))

def Ctrl.exec (s : State F) : Ctrl F → State F
  | .skip => s
  | .apply action => action.foldl (Primitive.exec size hash) s
  | .seq a b => b.exec (a.exec s)
  | .ite lhs cmp rhs a b => if cmp.holds (s.fields lhs) (rhs.eval s) then a.exec s else b.exec s

variable {size hash}

theorem exec_seq (s : State F) (a b : Ctrl F) :
    (Ctrl.seq a b).exec size hash s = b.exec size hash (a.exec size hash s) := rfl

theorem exec_ite (s : State F) (lhs : Ref F) (cmp : Cmp) (rhs : Operand F) (a b : Ctrl F) :
    (Ctrl.ite lhs cmp rhs a b).exec size hash s =
      if cmp.holds (s.fields lhs) (rhs.eval s) then a.exec size hash s else b.exec size hash s := rfl

end Language

section Generator

variable {F : Type} [DecidableEq F]

/-- The settings of the operator that code is generated from. -/
structure P4Reduce (F : Type) where
  keys : List (Fld F)
  values : Summand F
  threshold : Operand F
  readRegister : Bool

/-- A threshold of at most 1 is the number 1 for counts, and the field itself otherwise. -/
def P4Reduce.new (keys : List (Fld F)) (values : Summand F) (threshold : ℕ) (readRegister : Bool) :
    P4Reduce F where
  keys := keys
  values := values
  threshold :=
    if threshold ≤ 1 then
      match values with
      | .count => .const 1
      | .field f => .init (.raw f)
    else .const threshold
  readRegister := readRegister

def Summand.operand : Summand F → Operand F
  | .count => .const 1
  | .field f => .init (.raw f)

namespace P4Reduce

variable (r : P4Reduce F)

def initAction : List (Primitive F) :=
  [.modifyFieldWithHashBasedOffset .index 0 (r.keys.map .init) 65536,
    .registerRead .value .index,
    .modifyField .value (.plus .value r.values.operand),
    .registerWrite .index .value]

/-- The action of the table `drop_reduce`. -/
def dropAction : List (Primitive F) := [.modifyField .drop (.operand (.const 1))]

def setCountAction : List (Primitive F) :=
  if r.readRegister then [.modifyField (.init .index) (.ref .index)]
  else [.modifyField (.init .count) (.ref .value)]

def resetCountAction : List (Primitive F) := [.modifyField (.init .count) (.operand (.const 1))]

def getControlFlow : Ctrl F :=
  .seq (.apply r.initAction)
    (.ite .value .eq r.threshold (.apply r.setCountAction)
      (if r.readRegister then .apply dropAction
      else .ite .value .gt r.threshold (.apply resetCountAction) (.apply dropAction)))

end P4Reduce

/-- The action of the table `mark_satisfied`. -/
def markSatisfied : List (Primitive F) :=
  [.modifyField .satisfied (.operand (.const 1)), .modifyField .clone (.operand (.const 1))]

/-- Each operator runs unless an earlier one has dropped the packet. -/
def getIngressControlFlow : List (Ctrl F) → Ctrl F
  | [] => .ite .drop .ne (.const 1) (.apply markSatisfied) .skip
  | op :: ops => .ite .drop .ne (.const 1) (.seq op (getIngressControlFlow ops)) .skip

/-- The operator that `init_operators` makes of a cleaned Reduce. -/
def Reduce.p4 (r : Reduce F) (readRegister : Bool) : P4Reduce F :=
  .new (r.keys.filter fun k => k ≠ .payload ∧ k ≠ .ts) r.values r.threshold readRegister

end Generator

section Packets

variable {F : Type} [DecidableEq F] (size : F → ℕ) (hash : List Bool → ℕ)

/-- The named fields of a packet as it comes to the Reduce. -/
abbrev Packet := (fld : Fld F) → BitVec (fld.width size)

variable {size}

def Packet.enter (p : Packet size) (register : Register 32 65536) : State F where
  fields
    | .init fld => (p fld).toNat
    | _ => 0
  register := register

/-- A report has the key of its packet and the last field of its out header, which is the index
if registers are read and the count otherwise. -/
structure OutHeader where
  key : List ℕ
  last : ℕ
  deriving DecidableEq

namespace P4Reduce

variable (r : P4Reduce F)

def key (p : Packet size) : List ℕ := r.keys.map fun fld => (p fld).toNat

def index (p : Packet size) : ℕ :=
  hash (r.keys.flatMap fun fld => bitsOf (fld.width size) (p fld).toNat) % 65536

def summand (p : Packet size) : ℕ :=
  match r.values with
  | .count => 1
  | .field f => (p (.raw f)).toNat

/-- The number that the value of a packet is compared with. -/
def bound (p : Packet size) : ℕ :=
  match r.threshold with
  | .const n => n
  | .init fld => (p fld).toNat

/-- One packet through the generated control flow. -/
def process (register : Register 32 65536) (p : Packet size) : State F :=
  (getIngressControlFlow [r.getControlFlow]).exec size hash (p.enter register)

/-- The register after a packet. -/
def next (register : Register 32 65536) (p : Packet size) : Register 32 65536 :=
  (r.process hash register p).register

/-- A packet that is marked as satisfied is reported. -/
def report (register : Register 32 65536) (p : Packet size) : Option OutHeader :=
  let s := r.process hash register p
  if s.fields .satisfied = 1 then
    some ⟨r.key p, s.fields (.init (if r.readRegister then .index else .count))⟩
  else none

/-- The value of the key after a packet. -/
def value (register : Register 32 65536) (p : Packet size) : ℕ :=
  ((register.read (r.index hash p)).toNat + r.summand p) % 2 ^ 32

omit [DecidableEq F] in
theorem index_lt (p : Packet size) : r.index hash p < 65536 := Nat.mod_lt _ (by decide)

omit [DecidableEq F] in
theorem eval_summand (p : Packet size) (s : State F)
    (hs : ∀ fld, s.fields (.init fld) = (p fld).toNat) :
    r.values.operand.eval s = r.summand p := by
  unfold Summand.operand P4Reduce.summand
  cases r.values with
  | count => rfl
  | field f => exact hs _

omit [DecidableEq F] in
theorem eval_threshold (p : Packet size) (s : State F)
    (hs : ∀ fld, s.fields (.init fld) = (p fld).toNat) : r.threshold.eval s = r.bound p := by
  unfold P4Reduce.bound
  cases r.threshold with
  | const n => rfl
  | init fld => exact hs fld

/-- The state after the table `init_reduce`. -/
def counted (register : Register 32 65536) (p : Packet size) : State F where
  fields := Function.update (Function.update (p.enter register).fields .index (r.index hash p))
    .value (r.value hash register p)
  register := register.write (r.index hash p) (BitVec.ofNat 32 (r.value hash register p))

theorem counted_init (register : Register 32 65536) (p : Packet size) (fld : Fld F) :
    (r.counted hash register p).fields (.init fld) = (p fld).toNat := rfl

theorem exec_initAction (register : Register 32 65536) (p : Packet size) :
    (Ctrl.apply r.initAction).exec size hash (p.enter register) = r.counted hash register p := by
  have hidx : (0 + hash ((p.enter register).bits size (r.keys.map .init)) % 65536) % 2 ^ 16 =
      r.index hash p := by
    have hbits : (p.enter register).bits size (r.keys.map .init) =
        r.keys.flatMap fun fld => bitsOf (fld.width size) (p fld).toNat := by
      rw [State.bits, List.flatMap_map]
      rfl
    rw [hbits, Nat.zero_add]
    exact Nat.mod_eq_of_lt (r.index_lt hash p)
  have hread : (register.read (r.index hash p)).toNat % 2 ^ 32 =
      (register.read (r.index hash p)).toNat := Nat.mod_eq_of_lt (BitVec.isLt _)
  simp only [Ctrl.exec, initAction, List.foldl_cons, List.foldl_nil, Primitive.exec, State.set,
    Ref.width, hidx, Expr.eval]
  rw [r.eval_summand p _ fun _ => rfl]
  simp only [Function.update_self, Function.update_idem, Packet.enter, hread, ne_eq, reduceCtorEq,
    not_false_eq_true, Function.update_of_ne]
  rfl

theorem exec_getControlFlow (register : Register 32 65536) (p : Packet size) :
    r.getControlFlow.exec size hash (p.enter register) =
      if r.value hash register p = r.bound p then
        (Ctrl.apply r.setCountAction).exec size hash (r.counted hash register p)
      else if r.readRegister = false ∧ r.value hash register p > r.bound p then
        (Ctrl.apply resetCountAction).exec size hash (r.counted hash register p)
      else (Ctrl.apply dropAction).exec size hash (r.counted hash register p) := by
  have hvalue : (r.counted hash register p).fields .value = r.value hash register p := by
    unfold counted
    dsimp only
    rw [Function.update_self]
  have hbound := r.eval_threshold p (r.counted hash register p) (r.counted_init hash register p)
  rw [getControlFlow, exec_seq, exec_initAction, exec_ite, hvalue, hbound]
  by_cases heq : r.value hash register p = r.bound p
  · rw [if_pos heq]
    exact if_pos heq
  · rw [if_neg heq]
    apply (if_neg heq).trans
    cases r.readRegister with
    | true => simp
    | false =>
      rw [if_neg Bool.false_ne_true, exec_ite, hvalue, hbound]
      by_cases hgt : r.value hash register p > r.bound p
      · exact (if_pos hgt).trans (if_pos ⟨rfl, hgt⟩).symm
      · exact (if_neg hgt).trans (if_neg fun h => hgt h.2).symm

/-- A packet that the operator does not drop is marked as satisfied. -/
theorem process_of_pass {register : Register 32 65536} {p : Packet size} {x : State F}
    (hx : r.getControlFlow.exec size hash (p.enter register) = x) (hdrop : x.fields .drop = 0) :
    r.process hash register p = (Ctrl.apply markSatisfied).exec size hash x := by
  have henter : (p.enter register).fields .drop = 0 := rfl
  simp [process, getIngressControlFlow, Ctrl.exec, Cmp.holds, Operand.eval, henter, hx, hdrop]

theorem process_of_drop {register : Register 32 65536} {p : Packet size} {x : State F}
    (hx : r.getControlFlow.exec size hash (p.enter register) = x) (hdrop : x.fields .drop = 1) :
    r.process hash register p = x := by
  have henter : (p.enter register).fields .drop = 0 := rfl
  simp [process, getIngressControlFlow, Ctrl.exec, Cmp.holds, Operand.eval, henter, hx, hdrop]

section Cases

variable {register : Register 32 65536} {p : Packet size}

theorem process_first (h : r.value hash register p = r.bound p) :
    r.process hash register p = (Ctrl.apply markSatisfied).exec size hash
      ((Ctrl.apply r.setCountAction).exec size hash (r.counted hash register p)) := by
  apply r.process_of_pass hash
  · rw [exec_getControlFlow, if_pos h]
  · unfold setCountAction
    split <;> rfl

theorem process_above (h : r.value hash register p > r.bound p) (hread : r.readRegister = false) :
    r.process hash register p = (Ctrl.apply markSatisfied).exec size hash
      ((Ctrl.apply resetCountAction).exec size hash (r.counted hash register p)) := by
  apply r.process_of_pass hash
  · rw [exec_getControlFlow, if_neg (by omega), if_pos ⟨hread, h⟩]
  · rfl

theorem process_below (h : r.value hash register p ≠ r.bound p)
    (hnot : ¬(r.readRegister = false ∧ r.value hash register p > r.bound p)) :
    r.process hash register p =
      (Ctrl.apply dropAction).exec size hash (r.counted hash register p) := by
  apply r.process_of_drop hash
  · rw [exec_getControlFlow, if_neg h, if_neg hnot]
  · rfl

end Cases

/-- The register of the key has the new value, whatever becomes of the packet. -/
theorem next_eq (register : Register 32 65536) (p : Packet size) :
    r.next hash register p =
      register.write (r.index hash p) (BitVec.ofNat 32 (r.value hash register p)) := by
  rw [next]
  by_cases heq : r.value hash register p = r.bound p
  · rw [r.process_first hash heq]
    unfold setCountAction
    split <;> rfl
  · by_cases habove : r.readRegister = false ∧ r.value hash register p > r.bound p
    · rw [r.process_above hash habove.2 habove.1]
      rfl
    · rw [r.process_below hash heq habove]
      rfl

/-- A packet is reported with the value if it is the threshold and, if registers are not read,
with 1 if it is above. -/
theorem report_eq (register : Register 32 65536) (p : Packet size) :
    r.report hash register p =
      if r.value hash register p = r.bound p then
        some ⟨r.key p, if r.readRegister then r.index hash p
          else r.value hash register p % 2 ^ 16⟩
      else if r.readRegister = false ∧ r.value hash register p > r.bound p then some ⟨r.key p, 1⟩
      else none := by
  rw [report]
  by_cases heq : r.value hash register p = r.bound p
  · rw [r.process_first hash heq, if_pos heq]
    unfold setCountAction
    cases hread : r.readRegister with
    | true =>
      have hidx : r.index hash p % 2 ^ 16 = r.index hash p := Nat.mod_eq_of_lt (r.index_lt hash p)
      change some (OutHeader.mk (r.key p) (r.index hash p % 2 ^ 16)) = _
      rw [hidx]
      rfl
    | false => rfl
  · rw [if_neg heq]
    by_cases habove : r.readRegister = false ∧ r.value hash register p > r.bound p
    · rw [r.process_above hash habove.2 habove.1, if_pos habove, habove.1]
      rfl
    · rw [r.process_below hash heq habove, if_neg habove]
      rfl

end P4Reduce

end Packets

end P4Survey.Sonata
