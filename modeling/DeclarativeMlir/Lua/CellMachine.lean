import DeclarativeMlir.Lua.ControlFlow
import DeclarativeMlir.Lua.ClosureSteps
import DeclarativeMlir.Lua.LoweringNormalForm
import Mathlib.Data.Set.Basic

/-!
# Loops over cells

Every `lua.val` is the address of a cell with an object, which is a type and a field `u` of 64
bits. The ops that the lowering of loops creates are given their meaning; every other op, and the
function that a `lua.call` calls, is a parameter that may write the cells it can reach.
-/

namespace DeclarativeMlir.Lua.Cells

/-- The field `type` of an object. -/
inductive ObjType where
  | nil | bool | num | str | tbl | fcn | int
  deriving DecidableEq, Repr

structure TObject where
  type : ObjType
  u : BitVec 64
  deriving DecidableEq, Repr

namespace TObject

def nil : TObject := ⟨.nil, 0⟩

/-- `luac.wrap_int` -/
def ofInt (num : BitVec 64) : TObject := ⟨.int, num⟩

/-- `luac.wrap_bool` -/
def ofBool (b : Bool) : TObject := ⟨.bool, if b then 1 else 0⟩

/-- `lua_convert_bool_like` -/
def toBool (obj : TObject) : Bool :=
  match obj.type with
  | .nil => false
  | .bool => obj.u.getLsbD 0
  | _ => true

@[simp]
theorem toBool_ofBool (b : Bool) : (ofBool b).toBool = b := by
  cases b <;> rfl

end TObject

/-- What a value of the program is at run time. -/
inductive Reg where
  | ref (cell : ℕ)
  | num (value : BitVec 64)
  | pack (objs : List TObject)
  deriving DecidableEq

variable {W : Type}

structure Memory (W : Type) where
  cells : ℕ → TObject
  nextCell : ℕ
  /-- the cells that closures hold -/
  escaped : Set ℕ
  world : W
  escaped_lt : ∀ cell ∈ escaped, cell < nextCell

/-- What code that reaches the cells `reach` and the escaped ones may do. -/
structure Memory.Touches (reach : Set ℕ) (memory memory' : Memory W) : Prop where
  nextCell_le : memory.nextCell ≤ memory'.nextCell
  cells_eq : ∀ cell < memory.nextCell, cell ∉ reach → cell ∉ memory.escaped →
    memory'.cells cell = memory.cells cell
  not_escaped : ∀ cell < memory.nextCell, cell ∉ reach → cell ∉ memory.escaped →
    cell ∉ memory'.escaped

structure State (W : Type) where
  env : Value OpId → Option Reg
  memory : Memory W

namespace State

variable (s : State W)

def cell (value : Value OpId) : Option ℕ :=
  match s.env value with
  | some (.ref cell) => some cell
  | _ => none

def content (value : Value OpId) : Option TObject := (s.cell value).map s.memory.cells

def num (value : Value OpId) : Option (BitVec 64) :=
  match s.env value with
  | some (.num num) => some num
  | _ => none

def pack (value : Value OpId) : Option (List TObject) :=
  match s.env value with
  | some (.pack objs) => some objs
  | _ => none

/-- The cells that values used by `ops` refer to. -/
def reach (ops : List (Op OpId)) : Set ℕ :=
  {cell | ∃ value ∈ uses ops, s.env value = some (.ref cell)}

def define (id : OpId) (results : List Reg) : State W :=
  { s with
    env := fun
      | .res op idx => if op = id then results[idx]? else s.env (.res op idx)
      | .arg label idx => s.env (.arg label idx) }

/-- New cells with the objects `objs`, which are the results of an op. -/
def alloca (id : OpId) (objs : List TObject) : State W :=
  let s' := s.define id ((List.range objs.length).map fun i ↦ .ref (s.memory.nextCell + i))
  { s' with memory := { s.memory with
      cells := fun cell ↦
        if cell < s.memory.nextCell then s.memory.cells cell
        else objs.getD (cell - s.memory.nextCell) (s.memory.cells cell)
      nextCell := s.memory.nextCell + objs.length
      escaped_lt := fun cell hcell ↦
        (s.memory.escaped_lt cell hcell).trans_le (Nat.le_add_right _ _) } }

def setCell (cell : ℕ) (obj : TObject) : State W :=
  { s with memory := { s.memory with cells := fun cell' ↦
      if cell' = cell then obj else s.memory.cells cell' } }

/-- The objects of `vals` and `tail` of `lua.concat`. -/
def concat (op : Op OpId) : Option (List TObject) :=
  match op.attr with
  | .segments vals _ => do
    let objs ← (op.operands.take vals).mapM s.content
    let tail ← (op.operands.drop vals).mapM s.pack
    some (objs ++ tail.flatten)
  | _ => none

end State

/-- The meaning of the ops that the lowering of loops does not create, and of functions. Where an
op or a function does not return there is no state. -/
structure Machine (W : Type) where
  other : Op OpId → State W → Option (State W)
  call : TObject → List TObject → Memory W → Option (List TObject × Memory W)
  env_other : ∀ {op s s'}, other op s = some s' → ∀ value, value.owner ∉ op.defs →
    s'.env value = s.env value
  /-- a cell that an op returns is one it can reach or a new one -/
  ref_other : ∀ {op s s'}, other op s = some s' → ∀ value, value.owner ∈ op.defs →
    ∀ cell, s'.env value = some (.ref cell) →
      cell ∈ s.reach [op] ∨ cell ∈ s.memory.escaped ∨ s.memory.nextCell ≤ cell
  memory_other : ∀ {op s s'}, other op s = some s' →
    s.memory.Touches (s.reach [op]) s'.memory
  memory_call : ∀ {fcn args memory rets memory'}, call fcn args memory = some (rets, memory') →
    memory.Touches ∅ memory'

namespace Machine

variable (m : Machine W)

def execOp (op : Op OpId) (s : State W) : Option (State W) :=
  match op.name, op.operands with
  | .get_int_val, [val] => (s.content val).map fun obj ↦ s.define op.id [.num obj.u]
  | .wrap_int, [num] => (s.num num).map fun num ↦ s.alloca op.id [.ofInt num]
  | .add_i, [lhs, rhs] => do
    let lhs ← s.num lhs
    let rhs ← s.num rhs
    some (s.define op.id [.num (lhs + rhs)])
  | .le, [lhs, rhs] => do
    let lhs ← s.content lhs
    let rhs ← s.content rhs
    some (s.alloca op.id [.ofBool (lhs.u.sle rhs.u)])
  | .ne, [lhs, rhs] => do
    let lhs ← s.content lhs
    let rhs ← s.content rhs
    some (s.alloca op.id [.ofBool (lhs.u != rhs.u)])
  | .nil, [] => some (s.alloca op.id [.nil])
  | .copy, [tgt, val] => do
    let cell ← s.cell tgt
    let obj ← s.content val
    some (s.setCell cell obj)
  | .concat, _ => (s.concat op).map fun objs ↦ s.define op.id [.pack objs]
  | .call, [fcn, args] => do
    let fcn ← s.content fcn
    let args ← s.pack args
    let (rets, memory) ← m.call fcn args s.memory
    some ({ s with memory := memory }.define op.id [.pack rets])
  | .unpack, [pack] =>
    (s.pack pack).map fun objs ↦
      s.alloca op.id ((List.range op.numResults).map fun i ↦ objs.getD i .nil)
  | .end, _ => some s
  | _, _ => m.other op s

def execOps : List (Op OpId) → State W → Option (State W)
  | [], s => some s
  | op :: ops, s => (m.execOp op s).bind (execOps ops)

/-- The ops of a condition and the test of the operand of their `lua.cond`. -/
def condition (eval : List (Op OpId)) (s : State W) : Option (Bool × State W) := do
  let s ← m.execOps eval.dropLast s
  let term ← eval.getLast?
  let cond ← term.operands.head?
  let obj ← s.content cond
  some (obj.toBool, s)

end Machine

/-- A `lua.loop_while` and the ops in front of it. -/
structure Loop where
  setup : List (Op OpId)
  eval : List (Op OpId)
  body : List (Op OpId)

/-- The loop at the end of the ops that replace a `for`. -/
def loopOf (expansion : Expansion OpId) : Option Loop :=
  match expansion.inline.getLast? with
  | some (.mk _ .loop_while _ _ _ _ [eval, region]) =>
    some ⟨expansion.inline.dropLast, getBlock0 eval, getBlock0 region⟩
  | _ => none

/-- The loop has executed its body `k` times and evaluates its condition next. -/
inductive Loop.Head (m : Machine W) (loop : Loop) (start : State W) : ℕ → State W → Prop where
  | first {s} (hsetup : m.execOps loop.setup start = some s) : Head m loop start 0 s
  | next {k s t u} (hhead : Head m loop start k s) (hcond : m.condition loop.eval s = some (true, t))
      (hbody : m.execOps loop.body t = some u) : Head m loop start (k + 1) u

/-- The function and the arguments of a `lua.call`. -/
def State.callOf (s : State W) (op : Op OpId) : Option (TObject × List TObject) :=
  match op.name, op.operands with
  | .call, [fcn, args] => do some (← s.content fcn, ← s.pack args)
  | _, _ => none

/-- The calls that `ops` make. -/
def Machine.calls (m : Machine W) : List (Op OpId) → State W → List (TObject × List TObject)
  | [], _ => []
  | op :: ops, s =>
    (s.callOf op).toList ++
      match m.execOp op s with
      | some s' => calls m ops s'
      | none => []

/-! ## Frames -/

namespace Memory.Touches

variable {reach reach' : Set ℕ} {memory memory' memory'' : Memory W}

theorem refl (reach : Set ℕ) (memory : Memory W) : memory.Touches reach memory :=
  ⟨le_rfl, fun _ _ _ _ ↦ rfl, fun _ _ _ h ↦ h⟩

theorem mono (h : memory.Touches reach memory') (hreach : reach ⊆ reach') :
    memory.Touches reach' memory' where
  nextCell_le := h.nextCell_le
  cells_eq cell hlt hnot := h.cells_eq cell hlt fun hmem ↦ hnot (hreach hmem)
  not_escaped cell hlt hnot := h.not_escaped cell hlt fun hmem ↦ hnot (hreach hmem)

end Memory.Touches

namespace State

variable (s : State W) {id : OpId} {value : Value OpId}

theorem env_define (hvalue : value.owner ≠ id) (results : List Reg) :
    (s.define id results).env value = s.env value := by
  cases value with
  | res op idx => simp [define, show op ≠ id from hvalue]
  | arg label idx => rfl

theorem env_alloca (hvalue : value.owner ≠ id) (objs : List TObject) :
    (s.alloca id objs).env value = s.env value :=
  s.env_define hvalue _

@[simp]
theorem env_define_self (id : OpId) (idx : ℕ) (results : List Reg) :
    (s.define id results).env (.res id idx) = results[idx]? := by
  simp [define]

@[simp]
theorem env_setCell (cell : ℕ) (obj : TObject) : (s.setCell cell obj).env = s.env := rfl

@[simp]
theorem memory_define (id : OpId) (results : List Reg) :
    (s.define id results).memory = s.memory := rfl

@[simp]
theorem nextCell_alloca (id : OpId) (objs : List TObject) :
    (s.alloca id objs).memory.nextCell = s.memory.nextCell + objs.length := rfl

@[simp]
theorem nextCell_setCell (cell : ℕ) (obj : TObject) :
    (s.setCell cell obj).memory.nextCell = s.memory.nextCell := rfl

theorem env_alloca_self (id : OpId) {objs : List TObject} {idx : ℕ} (hidx : idx < objs.length) :
    (s.alloca id objs).env (.res id idx) = some (.ref (s.memory.nextCell + idx)) := by
  simp [alloca, hidx]

theorem cells_alloca (id : OpId) (objs : List TObject) {cell : ℕ}
    (hcell : cell < s.memory.nextCell) :
    (s.alloca id objs).memory.cells cell = s.memory.cells cell := by
  simp [alloca, hcell]

theorem cells_alloca_new (id : OpId) {objs : List TObject} {idx : ℕ} (hidx : idx < objs.length) :
    (s.alloca id objs).memory.cells (s.memory.nextCell + idx) = objs[idx] := by
  simp [alloca, hidx]

theorem cells_alloca_self (id : OpId) (obj : TObject) (objs : List TObject) :
    (s.alloca id (obj :: objs)).memory.cells s.memory.nextCell = obj := by
  simp [alloca]

@[simp]
theorem cells_setCell_self (cell : ℕ) (obj : TObject) :
    (s.setCell cell obj).memory.cells cell = obj := by
  simp [setCell]

theorem cells_setCell_of_ne {cell cell' : ℕ} (hne : cell' ≠ cell) (obj : TObject) :
    (s.setCell cell obj).memory.cells cell' = s.memory.cells cell' := by
  simp [setCell, hne]

theorem touches_alloca (reach : Set ℕ) (id : OpId) (objs : List TObject) :
    s.memory.Touches reach (s.alloca id objs).memory where
  nextCell_le := Nat.le_add_right _ _
  cells_eq _ hlt _ _ := s.cells_alloca id objs hlt
  not_escaped _ _ _ h := h

theorem touches_setCell {reach : Set ℕ} {cell : ℕ} (hcell : cell ∈ reach) (obj : TObject) :
    s.memory.Touches reach (s.setCell cell obj).memory where
  nextCell_le := le_rfl
  cells_eq cell' _ hnot _ := s.cells_setCell_of_ne (fun h : cell' = cell ↦ hnot (h ▸ hcell)) obj
  not_escaped _ _ _ h := h

theorem cell_eq_some {cell : ℕ} : s.cell value = some cell ↔ s.env value = some (.ref cell) := by
  unfold State.cell
  split <;> simp_all

theorem content_of_ref {cell : ℕ} (h : s.env value = some (.ref cell)) :
    s.content value = some (s.memory.cells cell) := by
  rw [content, s.cell_eq_some.mpr h, Option.map_some]

theorem content_congr {s s' : State W} (henv : s'.env value = s.env value)
    (hcells : ∀ cell, s.env value = some (.ref cell) →
      s'.memory.cells cell = s.memory.cells cell) : s'.content value = s.content value := by
  have hcell : s'.cell value = s.cell value := by rw [State.cell, State.cell, henv]
  rw [content, content, hcell]
  cases h : s.cell value with
  | none => rfl
  | some cell => rw [Option.map_some, Option.map_some, hcells cell ((s.cell_eq_some).mp h)]

theorem num_of_env {num : BitVec 64} (h : s.env value = some (.num num)) :
    s.num value = some num := by
  rw [State.num, h]

theorem pack_of_env {objs : List TObject} (h : s.env value = some (.pack objs)) :
    s.pack value = some objs := by
  rw [State.pack, h]

end State

theorem Op.id_mem_defs (op : Op OpId) : op.id ∈ op.defs := by
  cases op
  rw [Op.defs]
  exact List.mem_cons_self

namespace Machine

variable (m : Machine W) {op : Op OpId} {ops : List (Op OpId)} {s s' : State W}

/-- What an op can do. -/
theorem execOp_cases (h : m.execOp op s = some s') :
    (∃ results, (∀ cell, .ref cell ∉ results) ∧ s' = s.define op.id results) ∨ (∃ objs, s' = s.alloca op.id objs) ∨
      (∃ tgt ∈ op.operands, ∃ cell obj, s.env tgt = some (.ref cell) ∧ s' = s.setCell cell obj) ∨
      (∃ fcn args rets memory, m.call fcn args s.memory = some (rets, memory) ∧
        s' = { s with memory := memory }.define op.id [.pack rets]) ∨
      s' = s ∨ m.other op s = some s' := by
  unfold execOp at h
  split at h
  case h_12 => exact .inr (.inr (.inr (.inr (.inr h))))
  case h_11 => exact .inr (.inr (.inr (.inr (.inl (Option.some.inj h).symm))))
  all_goals
    simp only [Option.map_eq_some_iff, Option.bind_eq_bind, Option.bind_eq_some_iff,
      Option.some.injEq, Prod.exists] at h
  case h_1 =>
    obtain ⟨obj, -, rfl⟩ := h
    exact .inl ⟨_, by simp, rfl⟩
  case h_2 =>
    obtain ⟨num, -, rfl⟩ := h
    exact .inr (.inl ⟨_, rfl⟩)
  case h_3 =>
    obtain ⟨lhs, -, rhs, -, rfl⟩ := h
    exact .inl ⟨_, by simp, rfl⟩
  case h_4 =>
    obtain ⟨lhs, -, rhs, -, rfl⟩ := h
    exact .inr (.inl ⟨_, rfl⟩)
  case h_5 =>
    obtain ⟨lhs, -, rhs, -, rfl⟩ := h
    exact .inr (.inl ⟨_, rfl⟩)
  case h_6 => exact .inr (.inl ⟨_, h.symm⟩)
  case h_7 tgt val _ hoperands =>
    obtain ⟨cell, hcell, obj, -, rfl⟩ := h
    refine .inr (.inr (.inl ⟨tgt, ?_, cell, obj, (s.cell_eq_some).mp hcell, rfl⟩))
    rw [hoperands]
    exact List.mem_cons_self
  case h_8 =>
    obtain ⟨objs, -, rfl⟩ := h
    exact .inl ⟨_, by simp, rfl⟩
  case h_9 =>
    obtain ⟨fcn, -, args, -, rets, memory, hcall, rfl⟩ := h
    exact .inr (.inr (.inr (.inl ⟨fcn, args, rets, memory, hcall, rfl⟩)))
  case h_10 =>
    obtain ⟨objs, -, rfl⟩ := h
    exact .inr (.inl ⟨_, rfl⟩)

theorem env_execOp (h : m.execOp op s = some s') {value : Value OpId}
    (hvalue : value.owner ∉ op.defs) : s'.env value = s.env value := by
  have hid : value.owner ≠ op.id := fun h ↦ hvalue (h ▸ Op.id_mem_defs op)
  rcases m.execOp_cases h with ⟨results, -, rfl⟩ | ⟨objs, rfl⟩ | ⟨tgt, -, cell, obj, -, rfl⟩ |
    ⟨fcn, args, rets, memory, -, rfl⟩ | rfl | hother
  · exact s.env_define hid results
  · exact s.env_alloca hid objs
  · rfl
  · exact State.env_define _ hid _
  · rfl
  · exact m.env_other hother value hvalue

theorem touches_execOp (h : m.execOp op s = some s') :
    s.memory.Touches (s.reach [op]) s'.memory := by
  rcases m.execOp_cases h with ⟨results, -, rfl⟩ | ⟨objs, rfl⟩ | ⟨tgt, htgt, cell, obj, hcell, rfl⟩ |
    ⟨fcn, args, rets, memory, hcall, rfl⟩ | rfl | hother
  · exact .refl _ _
  · exact s.touches_alloca _ _ objs
  · have hwalk : op ∈ walkOps [op] := by
      cases op
      rw [walkOps, Op.walk]
      exact List.mem_cons_self
    have hmem : cell ∈ s.reach [op] :=
      ⟨tgt, List.mem_flatMap.mpr ⟨op, hwalk, htgt⟩, hcell⟩
    exact s.touches_setCell hmem obj
  · exact (m.memory_call hcall).mono (Set.empty_subset _)
  · exact .refl _ _
  · exact m.memory_other hother

theorem execOps_cons_eq_some :
    m.execOps (op :: ops) s = some s' ↔ ∃ t, m.execOp op s = some t ∧ m.execOps ops t = some s' := by
  rw [execOps, Option.bind_eq_some_iff]

theorem execOps_append (ops ops' : List (Op OpId)) (s : State W) :
    m.execOps (ops ++ ops') s = (m.execOps ops s).bind (m.execOps ops') := by
  induction ops generalizing s with
  | nil => rfl
  | cons op ops ih =>
    rw [List.cons_append, execOps, execOps, Option.bind_assoc]
    exact Option.bind_congr fun t _ ↦ ih t

theorem env_execOps (h : m.execOps ops s = some s') {value : Value OpId}
    (hvalue : value.owner ∉ defsOps ops) : s'.env value = s.env value := by
  induction ops generalizing s with
  | nil => rw [Option.some.inj h]
  | cons op ops ih =>
    rw [defsOps, List.mem_append, not_or] at hvalue
    obtain ⟨t, hop, hops⟩ := m.execOps_cons_eq_some.mp h
    exact (ih hops hvalue.2).trans (m.env_execOp hop hvalue.1)

theorem nextCell_execOps (h : m.execOps ops s = some s') :
    s.memory.nextCell ≤ s'.memory.nextCell := by
  induction ops generalizing s with
  | nil => rw [Option.some.inj h]
  | cons op ops ih =>
    obtain ⟨t, hop, hops⟩ := m.execOps_cons_eq_some.mp h
    exact (m.touches_execOp hop).nextCell_le.trans (ih hops)

end Machine

/-! ## Ops that the lowering creates -/

namespace Machine

variable (m : Machine W) (s : State W) (id : OpId) {lhs rhs value : Value OpId}

theorem execOp_getIntVal {cell : ℕ} (hvalue : s.env value = some (.ref cell)) :
    m.execOp (create id .get_int_val [value] 1) s =
      some (s.define id [.num (s.memory.cells cell).u]) := by
  change (s.content value).map _ = _
  rw [s.content_of_ref hvalue]
  rfl

theorem execOp_wrapInt {num : BitVec 64} (hvalue : s.env value = some (.num num)) :
    m.execOp (create id .wrap_int [value] 1) s = some (s.alloca id [.ofInt num]) := by
  change (s.num value).map _ = _
  rw [s.num_of_env hvalue]
  rfl

theorem execOp_addI {num num' : BitVec 64} (hlhs : s.env lhs = some (.num num))
    (hrhs : s.env rhs = some (.num num')) :
    m.execOp (create id .add_i [lhs, rhs] 1) s = some (s.define id [.num (num + num')]) := by
  change (s.num lhs).bind (fun lhs ↦ (s.num rhs).bind fun rhs ↦ _) = _
  rw [s.num_of_env hlhs, s.num_of_env hrhs]
  rfl

theorem execOp_le {cell cell' : ℕ} (hlhs : s.env lhs = some (.ref cell))
    (hrhs : s.env rhs = some (.ref cell')) :
    m.execOp (create id .le [lhs, rhs] 1) s =
      some (s.alloca id [.ofBool ((s.memory.cells cell).u.sle (s.memory.cells cell').u)]) := by
  change (s.content lhs).bind (fun lhs ↦ (s.content rhs).bind fun rhs ↦ _) = _
  rw [s.content_of_ref hlhs, s.content_of_ref hrhs]
  rfl

theorem execOp_copy {cell cell' : ℕ} (hlhs : s.env lhs = some (.ref cell))
    (hrhs : s.env rhs = some (.ref cell')) :
    m.execOp (create id .copy [lhs, rhs] 0) s =
      some (s.setCell cell (s.memory.cells cell')) := by
  change (s.cell lhs).bind (fun cell ↦ (s.content rhs).bind fun obj ↦ _) = _
  rw [s.cell_eq_some.mpr hlhs, s.content_of_ref hrhs]
  rfl

theorem execOp_ne {cell cell' : ℕ} (hlhs : s.env lhs = some (.ref cell))
    (hrhs : s.env rhs = some (.ref cell')) :
    m.execOp (create id .ne [lhs, rhs] 1) s =
      some (s.alloca id [.ofBool ((s.memory.cells cell).u != (s.memory.cells cell').u)]) := by
  change (s.content lhs).bind (fun lhs ↦ (s.content rhs).bind fun rhs ↦ _) = _
  rw [s.content_of_ref hlhs, s.content_of_ref hrhs]
  rfl

theorem execOp_nil : m.execOp (create id .nil [] 1) s = some (s.alloca id [.nil]) := rfl

theorem execOp_concat {cell cell' : ℕ} (hlhs : s.env lhs = some (.ref cell))
    (hrhs : s.env rhs = some (.ref cell')) :
    m.execOp (makeConcat id [lhs, rhs] []) s =
      some (s.define id [.pack [s.memory.cells cell, s.memory.cells cell']]) := by
  have hobjs : [lhs, rhs].mapM s.content = some [s.memory.cells cell, s.memory.cells cell'] := by
    rw [List.mapM_cons, List.mapM_cons, s.content_of_ref hlhs, s.content_of_ref hrhs]
    rfl
  change (([lhs, rhs].mapM s.content).bind fun objs ↦ some (objs ++ [])).map _ = _
  rw [hobjs]
  rfl

theorem execOp_unpack (n : ℕ) {objs : List TObject} (hvalue : s.env value = some (.pack objs)) :
    m.execOp (create id .unpack [value] n) s =
      some (s.alloca id ((List.range n).map fun i ↦ objs.getD i .nil)) := by
  change (s.pack value).map _ = _
  rw [s.pack_of_env hvalue]
  rfl

theorem execOp_call {cell : ℕ} {objs : List TObject} (hlhs : s.env lhs = some (.ref cell))
    (hrhs : s.env rhs = some (.pack objs)) :
    m.execOp (create id .call [lhs, rhs] 1) s =
      (m.call (s.memory.cells cell) objs s.memory).map fun ret ↦
        { s with memory := ret.2 }.define id [.pack ret.1] := by
  change (s.content lhs).bind (fun fcn ↦ (s.pack rhs).bind fun args ↦
    (m.call fcn args s.memory).bind fun ret ↦ _) = _
  rw [s.content_of_ref hlhs, s.pack_of_env hrhs, Option.bind_some, Option.bind_some,
    Option.map_eq_bind]
  rfl

theorem execOps_cons_of_some {op : Op OpId} {ops : List (Op OpId)} {s t : State W}
    (hop : m.execOp op s = some t) : m.execOps (op :: ops) s = m.execOps ops t := by
  rw [execOps, hop, Option.bind_some]

theorem calls_cons_of_some {op : Op OpId} {ops : List (Op OpId)} {s t : State W}
    (hop : m.execOp op s = some t) :
    m.calls (op :: ops) s = (s.callOf op).toList ++ m.calls ops t := by
  rw [calls, hop]

theorem calls_eq_nil {ops : List (Op OpId)} (hops : ∀ op ∈ ops, op.name ≠ .call) (s : State W) :
    m.calls ops s = [] := by
  induction ops generalizing s with
  | nil => rfl
  | cons op ops ih =>
    have hcall : s.callOf op = none := by
      have hname := hops op List.mem_cons_self
      unfold State.callOf
      split <;> simp_all
    rw [calls, hcall]
    split
    · exact ih (fun op hop ↦ hops op (.tail _ hop)) _
    · rfl

/-- The copies of `n` cells to as many others. -/
theorem execOps_copies (ids : ℕ → OpId) {n tgt src : ℕ} {tgts srcs : ℕ → Value OpId} {s : State W}
    (htgts : ∀ i < n, s.env (tgts i) = some (.ref (tgt + i)))
    (hsrcs : ∀ i < n, s.env (srcs i) = some (.ref (src + i))) (hlt : tgt + n ≤ src) :
    ∃ s', m.execOps ((List.range n).map fun i ↦ create (ids i) .copy [tgts i, srcs i] 0) s =
        some s' ∧ s'.env = s.env ∧ s'.memory.nextCell = s.memory.nextCell ∧
      s'.memory.escaped = s.memory.escaped ∧
      (∀ i < n, s'.memory.cells (tgt + i) = s.memory.cells (src + i)) ∧
      ∀ cell, (∀ i < n, cell ≠ tgt + i) → s'.memory.cells cell = s.memory.cells cell := by
  induction n with
  | zero => exact ⟨s, rfl, rfl, rfl, rfl, nofun, fun _ _ ↦ rfl⟩
  | succ n ih =>
    obtain ⟨t, hops, henv, hnext, hescaped, hcells, hother⟩ :=
      ih (fun i hi ↦ htgts i (by omega)) (fun i hi ↦ hsrcs i (by omega)) (by omega)
    have htgt : t.env (tgts n) = some (.ref (tgt + n)) := by rw [henv, htgts n (by omega)]
    have hsrc : t.env (srcs n) = some (.ref (src + n)) := by rw [henv, hsrcs n (by omega)]
    have hcopy := m.execOp_copy t (ids n) htgt hsrc
    have hsrcCell : t.memory.cells (src + n) = s.memory.cells (src + n) :=
      hother _ fun i hi ↦ by omega
    rw [hsrcCell] at hcopy
    refine ⟨t.setCell (tgt + n) (s.memory.cells (src + n)), ?_, henv, hnext, hescaped, ?_, ?_⟩
    · rw [List.range_succ, List.map_append, execOps_append, hops, Option.bind_some,
        List.map_singleton, m.execOps_cons_of_some hcopy]
      rfl
    · intro i hi
      rcases Nat.lt_succ_iff_lt_or_eq.mp hi with hlt | rfl
      · rw [t.cells_setCell_of_ne (by omega), hcells i hlt]
      · rw [t.cells_setCell_self]
    · intro cell hcell
      rw [t.cells_setCell_of_ne (hcell n (by omega)), hother cell fun i hi ↦ hcell i (by omega)]

end Machine

/-! ## Cells of one value -/

/-- The cell is referred to by one value alone. -/
structure State.Hides (s : State W) (owner : Value OpId) (cell : ℕ) : Prop where
  lt : cell < s.memory.nextCell
  not_escaped : cell ∉ s.memory.escaped
  env : ∀ value ≠ owner, s.env value ≠ some (.ref cell)

namespace State.Hides

variable {m : Machine W} {s s' : State W} {owner : Value OpId} {cell : ℕ}

/-- A new cell has the result of its op as its only name. -/
theorem of_alloca (hrefs : ∀ value cell, s.env value = some (.ref cell) → cell < s.memory.nextCell)
    (id : OpId) (obj : TObject) :
    (s.alloca id [obj]).Hides (.res id 0) s.memory.nextCell where
  lt := Nat.lt_succ_self _
  not_escaped h := Nat.lt_irrefl _ (s.memory.escaped_lt _ h)
  env value hvalue hcell := by
    have howner : value.owner ≠ id := by
      rintro rfl
      cases value with
      | arg label idx => exact Nat.lt_irrefl _ (hrefs _ _ hcell)
      | res op idx =>
        have hidx : idx ≠ 0 := fun h ↦ hvalue (h ▸ rfl)
        simp [State.alloca, State.define, Value.owner, hidx] at hcell
    rw [s.env_alloca howner] at hcell
    exact Nat.lt_irrefl _ (hrefs _ _ hcell)

theorem notMem_reach (h : s.Hides owner cell) {ops : List (Op OpId)} (hops : owner ∉ uses ops) :
    cell ∉ s.reach ops := by
  rintro ⟨value, hvalue, hcell⟩
  exact h.env value (fun heq ↦ hops (heq ▸ hvalue)) hcell

theorem define (h : s.Hides owner cell) (id : OpId) {results : List Reg}
    (hresults : ∀ cell, .ref cell ∉ results) : (s.define id results).Hides owner cell where
  lt := h.lt
  not_escaped := h.not_escaped
  env value hvalue hcell := by
    cases value with
    | arg label idx => exact h.env _ hvalue hcell
    | res op idx =>
      simp only [State.define] at hcell
      split at hcell
      · exact hresults cell (List.mem_of_getElem? hcell)
      · exact h.env _ hvalue hcell

theorem alloca (h : s.Hides owner cell) (id : OpId) (objs : List TObject) :
    (s.alloca id objs).Hides owner cell where
  lt := h.lt.trans_le (Nat.le_add_right _ _)
  not_escaped := h.not_escaped
  env value hvalue hcell := by
    cases value with
    | arg label idx => exact h.env _ hvalue hcell
    | res op idx =>
      simp only [State.alloca, State.define] at hcell
      split at hcell
      · have hmem := List.mem_of_getElem? hcell
        rw [List.mem_map] at hmem
        obtain ⟨i, -, hi⟩ := hmem
        have hlt := h.lt
        simp only [Reg.ref.injEq] at hi
        omega
      · exact h.env _ hvalue hcell

theorem of_touches (h : s.Hides owner cell) {reach : Set ℕ} (hreach : cell ∉ reach)
    (henv : ∀ value ≠ owner, s'.env value ≠ some (.ref cell))
    (htouches : s.memory.Touches reach s'.memory) :
    s'.Hides owner cell ∧ s'.memory.cells cell = s.memory.cells cell :=
  ⟨⟨h.lt.trans_le htouches.nextCell_le, htouches.not_escaped cell h.lt hreach h.not_escaped, henv⟩,
    htouches.cells_eq cell h.lt hreach h.not_escaped⟩

/-- The value that an op defines does not become a second name of the cell. -/
theorem env_execOp (h : s.Hides owner cell) {op : Op OpId} (hop : owner ∉ uses [op])
    (hexec : m.execOp op s = some s') : ∀ value ≠ owner, s'.env value ≠ some (.ref cell) := by
  rcases m.execOp_cases hexec with ⟨results, hresults, rfl⟩ | ⟨objs, rfl⟩ |
    ⟨tgt, -, cell', obj, -, rfl⟩ | ⟨fcn, args, rets, memory, hcall, rfl⟩ | rfl | hother
  · exact (h.define op.id hresults).env
  · exact (h.alloca op.id objs).env
  · exact h.env
  · have hmemory : State.Hides { s with memory := memory } owner cell ∧
        memory.cells cell = s.memory.cells cell :=
      h.of_touches (Set.notMem_empty _) h.env (m.memory_call hcall)
    exact (hmemory.1.define op.id (by simp)).env
  · exact h.env
  · intro value hvalue hcell
    by_cases howner : value.owner ∈ op.defs
    · rcases m.ref_other hother value howner cell hcell with hreach | hescaped | hnew
      · exact h.notMem_reach hop hreach
      · exact h.not_escaped hescaped
      · exact absurd h.lt (not_lt.mpr hnew)
    · rw [m.env_other hother value howner] at hcell
      exact h.env value hvalue hcell

theorem execOp (h : s.Hides owner cell) {op : Op OpId} (hop : owner ∉ uses [op])
    (hexec : m.execOp op s = some s') :
    s'.Hides owner cell ∧ s'.memory.cells cell = s.memory.cells cell :=
  h.of_touches (h.notMem_reach hop) (h.env_execOp hop hexec) (m.touches_execOp hexec)

/-- Code that does not use the value leaves the cell as it is. -/
theorem execOps (h : s.Hides owner cell) {ops : List (Op OpId)} (hops : owner ∉ uses ops)
    (hexec : m.execOps ops s = some s') :
    s'.Hides owner cell ∧ s'.memory.cells cell = s.memory.cells cell := by
  induction ops generalizing s with
  | nil =>
    have hs : s = s' := Option.some.inj hexec
    exact hs ▸ ⟨h, rfl⟩
  | cons op ops ih =>
    rw [uses_cons, List.mem_append, not_or] at hops
    obtain ⟨t, hop, hrest⟩ := m.execOps_cons_eq_some.mp hexec
    obtain ⟨ht, hcell⟩ := h.execOp hops.1 hop
    obtain ⟨hs', hcell'⟩ := ih ht hops.2 hrest
    exact ⟨hs', hcell'.trans hcell⟩

end State.Hides

/-! ## Copied bodies -/

section

variable (bvm : List (Value OpId × Value OpId)) (ops : List (Op OpId)) (id : OpId) (attr : Attr)

/-- The ops of a body that are copied in front of the terminator. -/
def copied : List (Op OpId) :=
  (copyInto none bvm (ops ++ [.mk id .end attr [] 0 [] []])).dropLast

theorem copyInto_end :
    copyInto none bvm (ops ++ [.mk id .end attr [] 0 [] []]) =
      copied bvm ops id attr ++ [.mk (.clone id) .end attr [] 0 [] []] := by
  have hid : id ∈ defsOps (ops ++ [.mk id .end attr [] 0 [] []]) := by
    rw [defsOps_append]
    exact List.mem_append_right _ List.mem_cons_self
  have hclone := cloneIds_of_mem hid
  rw [copied, copyInto_none, substOps_eq_map, List.map_append, List.map_singleton,
    List.dropLast_concat]
  simp only [Op.subst, hclone, substRegions, List.map_nil]

theorem owner_copied {x : OpId} (hx : x ∈ defsOps (copied bvm ops id attr)) :
    ∃ op ∈ defsOps ops, x = .clone op := by
  rw [copied, copyInto_none, substOps_eq_map, List.map_append, List.map_singleton,
    List.dropLast_concat, ← substOps_eq_map, defsOps_subst, List.mem_map] at hx
  obtain ⟨op, hop, hx⟩ := hx
  have hmem : op ∈ defsOps (ops ++ [.mk id .end attr [] 0 [] []]) := by
    rw [defsOps_append]
    exact List.mem_append_left _ hop
  exact ⟨op, hop, by rw [← hx, cloneIds_of_mem hmem]⟩

end

end DeclarativeMlir.Lua.Cells
