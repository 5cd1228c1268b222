import DeclarativeMlir.Lua.CellMachine
import Mathlib.Tactic.Linarith

/-!
# Lowered numeric `for` loops

`lowerNumericFor` counts in the cell that the body sees as the loop variable, compares it by
`luac.le` whatever the sign of the step is, and reads the upper bound before every iteration.
-/

namespace DeclarativeMlir.Lua.Cells

/-- A value is in the loop. -/
def Within (step stop value : ℤ) : Prop := if 0 < step then value ≤ stop else stop ≤ value

instance (step stop value : ℤ) : Decidable (Within step stop value) :=
  if h : 0 < step then decidable_of_iff (value ≤ stop) (by simp [Within, h])
  else decidable_of_iff (stop ≤ value) (by simp [Within, h])

/-- A `lua.numeric_for` and the state in which it is executed. -/
structure NumericFor (W : Type) where
  id : OpId
  attr : Attr
  lower : Value OpId
  upper : Value OpId
  step : Value OpId
  body : List (Op OpId)
  endId : OpId
  endAttr : Attr
  state : State W
  lowerCell : ℕ
  upperCell : ℕ
  stepCell : ℕ
  env_lower : state.env lower = some (.ref lowerCell)
  env_upper : state.env upper = some (.ref upperCell)
  env_step : state.env step = some (.ref stepCell)
  upperCell_lt : upperCell < state.memory.nextCell
  step_ne_zero : (state.memory.cells stepCell).u ≠ 0
  /-- the values of the bounds are defined by other ops than those that are created -/
  fresh : ∀ value ∈ [lower, upper, step], (∀ k, value.owner ≠ .new id k) ∧
    ∀ op ∈ defsOps body, value.owner ≠ .clone op

namespace NumericFor

variable {W : Type} (loop : NumericFor W)

def endOp : Op OpId := .mk loop.endId .end loop.endAttr [] 0 [] []

def region : Region OpId := [.mk (.entry loop.id 0) 1 (loop.body ++ [loop.endOp])]

def op : Op OpId :=
  .mk loop.id .numeric_for loop.attr [loop.lower, loop.upper, loop.step] 0 [] [loop.region]

/-- The value that the body has for its argument. -/
def i : Value OpId := .res (.new loop.id 2) 0

/-- The ops of the body of the lowered loop that are copied from the body. -/
def copied : List (Op OpId) :=
  Cells.copied [(.arg (.entry loop.id 0) 0, loop.i)] loop.body loop.endId loop.endAttr

def start : ℤ := (loop.state.memory.cells loop.lowerCell).u.toInt

def stop : ℤ := (loop.state.memory.cells loop.upperCell).u.toInt

/-- The step as it is added. -/
def stepNum : BitVec 64 := (loop.state.memory.cells loop.stepCell).u

/-- The value `k` of the sequence. -/
def value (k : ℕ) : ℤ := loop.start + k * loop.stepNum.toInt

def InLoop (k : ℕ) : Prop := Within loop.stepNum.toInt loop.stop (loop.value k)

instance (k : ℕ) : Decidable (loop.InLoop k) := inferInstanceAs (Decidable (Within _ _ _))

/-- The body is executed for the values of the sequence up to the last one in the loop. -/
structure RunsBody (m : Machine W) (lowered : Loop) : Prop where
  setup : (m.execOps lowered.setup loop.state).isSome
  condition : ∀ {k s}, lowered.Head m loop.state k s → (m.condition lowered.eval s).isSome
  enters : ∀ {k s t}, lowered.Head m loop.state k s → m.condition lowered.eval s = some (true, t) →
    loop.InLoop k ∧ (t.content loop.i).map (fun obj ↦ obj.u.toInt) = some (loop.value k)
  leaves : ∀ {k s t}, lowered.Head m loop.state k s →
    m.condition lowered.eval s = some (false, t) → ¬ loop.InLoop k
  /-- behind the body the loop goes on -/
  next : ∀ {k s t u}, lowered.Head m loop.state k s → m.condition lowered.eval s = some (true, t) →
    m.execOps loop.copied t = some u → (m.execOps lowered.body t).isSome

/-- The cell of the loop variable. -/
def loopCell : ℕ := loop.state.memory.nextCell

/-- What the body may do to the cells of the loop variable and of the upper bound when it is
executed for the value `k`, from `t` to `u`. -/
def Keeps (k : ℕ) (t u : State W) : Prop :=
  if loop.InLoop (k + 1) then
    (u.memory.cells loop.loopCell).u = (t.memory.cells loop.loopCell).u ∧
      loop.value (k + 1) ≤ (u.memory.cells loop.upperCell).u.toInt
  else (u.memory.cells loop.upperCell).u.toInt <
    ((u.memory.cells loop.loopCell).u + loop.stepNum).toInt

/-! ## The lowered loop -/

def created (k : ℕ) (name : OpName) (operands : List (Value OpId)) : Op OpId :=
  create (.new loop.id k) name operands 1

def result (k : ℕ) : Value OpId := .res (.new loop.id k) 0

def setup : List (Op OpId) :=
  [loop.created 0 .get_int_val [loop.step], loop.created 1 .get_int_val [loop.lower],
    loop.created 2 .wrap_int [loop.result 1]]

def eval : List (Op OpId) :=
  [loop.created 4 .le [loop.i, loop.upper], create (.new loop.id 5) .cond [loop.result 4] 0]

def increment : List (Op OpId) :=
  [loop.created 6 .get_int_val [loop.i], loop.created 7 .add_i [loop.result 6, loop.result 0],
    loop.created 8 .wrap_int [loop.result 7],
    create (.new loop.id 9) .copy [loop.i, loop.result 8] 0]

def lowered : Loop where
  setup := loop.setup
  eval := loop.eval
  body := loop.copied ++ loop.increment ++ [.mk (.clone loop.endId) .end loop.endAttr [] 0 [] []]

theorem lower_eq : (lowerNumericFor loop.op).bind loopOf = some loop.lowered := by
  have hbody : insertBeforeTerminator
      (copyInto none [(.arg (.entry loop.id 0) 0, loop.i)] (loop.body ++ [loop.endOp]))
      loop.increment = loop.lowered.body := by
    rw [endOp, copyInto_end]
    simp [insertBeforeTerminator, lowered, copied]
  change some (Loop.mk loop.setup loop.eval (insertBeforeTerminator
    (copyInto none [(.arg (.entry loop.id 0) 0, loop.i)] (loop.body ++ [loop.endOp]))
      loop.increment)) = _
  rw [hbody]
  rfl

/-! ## The steps of the loop -/

/-- The cells that the loop uses are in place. -/
structure Ready (s : State W) : Prop where
  env_i : s.env loop.i = some (.ref loop.loopCell)
  env_upper : s.env loop.upper = some (.ref loop.upperCell)
  env_step : s.env (loop.result 0) = some (.num loop.stepNum)
  loopCell_lt : loop.loopCell < s.memory.nextCell

variable (m : Machine W)

theorem upper_fresh (k : ℕ) : loop.upper.owner ≠ .new loop.id k :=
  (loop.fresh loop.upper (by simp)).1 k

theorem lower_fresh (k : ℕ) : loop.lower.owner ≠ .new loop.id k :=
  (loop.fresh loop.lower (by simp)).1 k

theorem result_ne {j k : ℕ} (h : j ≠ k) : (loop.result j).owner ≠ .new loop.id k := by
  simpa [result, Value.owner] using h

theorem i_ne {k : ℕ} (h : 2 ≠ k) : loop.i.owner ≠ .new loop.id k := loop.result_ne h

theorem new_notMem_copied (k : ℕ) : (loop.result k).owner ∉ defsOps loop.copied := by
  intro hmem
  obtain ⟨op, -, h⟩ := owner_copied _ _ _ _ hmem
  cases h

theorem upper_notMem_copied : loop.upper.owner ∉ defsOps loop.copied := by
  intro hmem
  obtain ⟨op, hop, h⟩ := owner_copied _ _ _ _ hmem
  exact (loop.fresh loop.upper (by simp)).2 op hop h

theorem Ready.upperCell_lt {s : State W} (hready : loop.Ready s) :
    loop.upperCell < s.memory.nextCell :=
  loop.upperCell_lt.trans hready.loopCell_lt

theorem upperCell_ne : loop.upperCell ≠ loop.loopCell := loop.upperCell_lt.ne

/-- A new register or cell keeps the loop ready. -/
theorem Ready.define {s : State W} (hready : loop.Ready s) {k : ℕ} (hk : 2 < k)
    (results : List Reg) : loop.Ready (s.define (.new loop.id k) results) where
  env_i := (s.env_define (loop.i_ne hk.ne) results).trans hready.env_i
  env_upper := (s.env_define (loop.upper_fresh k) results).trans hready.env_upper
  env_step := (s.env_define (loop.result_ne (by omega)) results).trans hready.env_step
  loopCell_lt := hready.loopCell_lt

theorem Ready.alloca {s : State W} (hready : loop.Ready s) {k : ℕ} (hk : 2 < k)
    (objs : List TObject) : loop.Ready (s.alloca (.new loop.id k) objs) where
  env_i := (s.env_alloca (loop.i_ne hk.ne) objs).trans hready.env_i
  env_upper := (s.env_alloca (loop.upper_fresh k) objs).trans hready.env_upper
  env_step := (s.env_alloca (loop.result_ne (by omega)) objs).trans hready.env_step
  loopCell_lt := hready.loopCell_lt.trans_le (Nat.le_add_right _ _)

theorem exists_setup :
    ∃ s, m.execOps loop.setup loop.state = some s ∧ loop.Ready s ∧
      (s.memory.cells loop.loopCell).u = (loop.state.memory.cells loop.lowerCell).u ∧
      s.memory.cells loop.upperCell = loop.state.memory.cells loop.upperCell := by
  have hstep := m.execOp_getIntVal loop.state (.new loop.id 0) loop.env_step
  obtain ⟨s₁, hs₁⟩ : ∃ s, s = loop.state.define (.new loop.id 0) [.num loop.stepNum] := ⟨_, rfl⟩
  have hlower : s₁.env loop.lower = some (.ref loop.lowerCell) := by
    rw [hs₁, State.env_define _ (loop.lower_fresh 0), loop.env_lower]
  have hstart := m.execOp_getIntVal s₁ (.new loop.id 1) hlower
  obtain ⟨s₂, hs₂⟩ : ∃ s, s = s₁.define (.new loop.id 1) [.num (s₁.memory.cells loop.lowerCell).u] :=
    ⟨_, rfl⟩
  have hnum : s₂.env (loop.result 1) = some (.num (loop.state.memory.cells loop.lowerCell).u) := by
    rw [hs₂, result, State.env_define_self, hs₁]
    rfl
  have hmemory : s₂.memory = loop.state.memory := by
    rw [hs₂, hs₁]
    rfl
  have hwrap := m.execOp_wrapInt s₂ (.new loop.id 2) hnum
  have hloopCell : loop.loopCell = s₂.memory.nextCell := by
    rw [hmemory]
    rfl
  have hcell := s₂.cells_alloca_self (.new loop.id 2)
    (.ofInt (loop.state.memory.cells loop.lowerCell).u) []
  refine ⟨s₂.alloca (.new loop.id 2) [.ofInt (loop.state.memory.cells loop.lowerCell).u],
    ?_, ⟨?_, ?_, ?_, ?_⟩, ?_, ?_⟩
  · rw [setup, created, m.execOps_cons_of_some hstep, created]
    change m.execOps _ (loop.state.define (.new loop.id 0) [.num loop.stepNum]) = _
    rw [← hs₁, m.execOps_cons_of_some hstart, ← hs₂, created, m.execOps_cons_of_some hwrap]
    rfl
  · rw [i, State.env_alloca_self _ _ (by simp), hmemory]
    rfl
  · rw [State.env_alloca _ (loop.upper_fresh 2), hs₂, State.env_define _ (loop.upper_fresh 1), hs₁,
      State.env_define _ (loop.upper_fresh 0), loop.env_upper]
  · rw [State.env_alloca _ (loop.result_ne (by decide)), hs₂,
      State.env_define _ (loop.result_ne (by decide)), hs₁, result, State.env_define_self]
    rfl
  · rw [State.nextCell_alloca, hmemory]
    exact Nat.lt_succ_self _
  · rw [hloopCell, hcell]
    rfl
  · rw [State.cells_alloca _ _ _ (hmemory ▸ loop.upperCell_lt), hmemory]

theorem condition_eq {s : State W} (hready : loop.Ready s) :
    m.condition loop.eval s =
      some ((s.memory.cells loop.loopCell).u.sle (s.memory.cells loop.upperCell).u,
        s.alloca (.new loop.id 4)
          [.ofBool ((s.memory.cells loop.loopCell).u.sle (s.memory.cells loop.upperCell).u)]) := by
  have hle := m.execOp_le s (.new loop.id 4) hready.env_i hready.env_upper
  obtain ⟨t, ht⟩ : ∃ t, t = s.alloca (.new loop.id 4)
    [.ofBool ((s.memory.cells loop.loopCell).u.sle (s.memory.cells loop.upperCell).u)] := ⟨_, rfl⟩
  have hresult : t.env (loop.result 4) = some (.ref s.memory.nextCell) := by
    rw [ht, result, State.env_alloca_self _ _ (by simp), Nat.add_zero]
  have hcell : t.memory.cells s.memory.nextCell = .ofBool
      ((s.memory.cells loop.loopCell).u.sle (s.memory.cells loop.upperCell).u) := by
    rw [ht, State.cells_alloca_self]
  rw [← ht] at hle ⊢
  have hops : m.execOps loop.eval.dropLast s = some t := m.execOps_cons_of_some hle
  change (m.execOps loop.eval.dropLast s).bind
    (fun t ↦ (t.content (loop.result 4)).bind fun obj ↦ some (obj.toBool, t)) = _
  rw [hops, Option.bind_some, State.content_of_ref _ hresult, hcell, Option.bind_some,
    TObject.toBool_ofBool]

/-- The body does not define the values that the loop uses. -/
theorem Ready.copied {t u : State W} (hready : loop.Ready t)
    (hbody : m.execOps loop.copied t = some u) : loop.Ready u where
  env_i := (m.env_execOps hbody (loop.new_notMem_copied 2)).trans hready.env_i
  env_upper := (m.env_execOps hbody loop.upper_notMem_copied).trans hready.env_upper
  env_step := (m.env_execOps hbody (loop.new_notMem_copied 0)).trans hready.env_step
  loopCell_lt := hready.loopCell_lt.trans_le (m.nextCell_execOps hbody)

/-- The loop variable is increased by the step. -/
theorem exists_increment {u : State W} (hready : loop.Ready u) :
    ∃ v, m.execOps loop.increment u = some v ∧ loop.Ready v ∧
      (v.memory.cells loop.loopCell).u = (u.memory.cells loop.loopCell).u + loop.stepNum ∧
      v.memory.cells loop.upperCell = u.memory.cells loop.upperCell := by
  obtain ⟨num, hnum⟩ : ∃ num, num = (u.memory.cells loop.loopCell).u := ⟨_, rfl⟩
  have hget := m.execOp_getIntVal u (.new loop.id 6) hready.env_i
  rw [← hnum] at hget
  obtain ⟨u₁, hu₁⟩ : ∃ s, s = u.define (.new loop.id 6) [.num num] := ⟨_, rfl⟩
  have hready₁ : loop.Ready u₁ := hu₁ ▸ hready.define loop (by decide) _
  have hresult₁ : u₁.env (loop.result 6) = some (.num num) := by
    rw [hu₁, result, State.env_define_self]
    rfl
  have hadd := m.execOp_addI u₁ (.new loop.id 7) hresult₁ hready₁.env_step
  obtain ⟨u₂, hu₂⟩ : ∃ s, s = u₁.define (.new loop.id 7) [.num (num + loop.stepNum)] := ⟨_, rfl⟩
  have hready₂ : loop.Ready u₂ := hu₂ ▸ hready₁.define loop (by decide) _
  have hresult₂ : u₂.env (loop.result 7) = some (.num (num + loop.stepNum)) := by
    rw [hu₂, result, State.env_define_self]
    rfl
  have hwrap := m.execOp_wrapInt u₂ (.new loop.id 8) hresult₂
  obtain ⟨u₃, hu₃⟩ : ∃ s, s = u₂.alloca (.new loop.id 8) [.ofInt (num + loop.stepNum)] := ⟨_, rfl⟩
  have hready₃ : loop.Ready u₃ := hu₃ ▸ hready₂.alloca loop (by decide) _
  have hresult₃ : u₃.env (loop.result 8) = some (.ref u₂.memory.nextCell) := by
    rw [hu₃, result, State.env_alloca_self _ _ (by simp), Nat.add_zero]
  have hcell₃ : u₃.memory.cells u₂.memory.nextCell = .ofInt (num + loop.stepNum) := by
    rw [hu₃, State.cells_alloca_self]
  have hmemory : u₂.memory = u.memory := by
    rw [hu₂, hu₁]
    rfl
  have hcopy := m.execOp_copy u₃ (.new loop.id 9) hready₃.env_i hresult₃
  rw [hcell₃] at hcopy
  refine ⟨u₃.setCell loop.loopCell (.ofInt (num + loop.stepNum)), ?_,
    ⟨hready₃.env_i, hready₃.env_upper, hready₃.env_step, hready₃.loopCell_lt⟩, ?_, ?_⟩
  · rw [increment, created, m.execOps_cons_of_some hget, ← hu₁, created,
      m.execOps_cons_of_some hadd, ← hu₂, created, m.execOps_cons_of_some hwrap, ← hu₃,
      m.execOps_cons_of_some hcopy]
    rfl
  · rw [State.cells_setCell_self, ← hnum]
    rfl
  · have hlt : loop.upperCell < u₂.memory.nextCell := hready₂.upperCell_lt loop
    rw [State.cells_setCell_of_ne _ loop.upperCell_ne, hu₃, State.cells_alloca _ _ _ hlt, hmemory]

/-- An iteration is the copied body and the increment. -/
theorem execOps_body_eq_some {t v : State W} :
    m.execOps loop.lowered.body t = some v ↔
      ∃ u, m.execOps loop.copied t = some u ∧ m.execOps loop.increment u = some v := by
  have hend (s : State W) :
      m.execOps [.mk (.clone loop.endId) .end loop.endAttr [] 0 [] []] s = some s := rfl
  simp only [lowered, Machine.execOps_append, Option.bind_assoc, Option.bind_eq_some_iff, hend,
    Option.some.injEq, exists_eq_right]

/-! ## The values of the sequence -/

theorem value_zero : loop.value 0 = loop.start := by simp [value]

theorem value_succ (k : ℕ) : loop.value (k + 1) = loop.value k + loop.stepNum.toInt := by
  rw [value, value, Nat.cast_succ, add_mul, one_mul, add_assoc]

theorem stepNum_ne_zero : loop.stepNum.toInt ≠ 0 := by
  intro hzero
  have hstep : loop.stepNum.toInt = (0 : BitVec 64).toInt := hzero
  exact loop.step_ne_zero (BitVec.toInt_inj.mp hstep)

/-- The values of the sequence in the loop lie between the bounds. -/
theorem value_bounds {k : ℕ} (hin : loop.InLoop k) :
    -2 ^ 63 ≤ loop.value k ∧ loop.value k < 2 ^ 63 := by
  have hstart : -2 ^ 63 ≤ loop.start ∧ loop.start < 2 ^ 63 := ⟨BitVec.le_toInt _, BitVec.toInt_lt⟩
  have hstop : -2 ^ 63 ≤ loop.stop ∧ loop.stop < 2 ^ 63 := ⟨BitVec.le_toInt _, BitVec.toInt_lt⟩
  have hvalue : loop.value k = loop.start + k * loop.stepNum.toInt := rfl
  rw [InLoop, Within] at hin
  split at hin
  case isTrue hpos =>
    have hmul : 0 ≤ (k : ℤ) * loop.stepNum.toInt := by positivity
    exact ⟨by linarith, by linarith⟩
  case isFalse hneg =>
    have hmul : (k : ℤ) * loop.stepNum.toInt ≤ 0 :=
      mul_nonpos_of_nonneg_of_nonpos (Int.natCast_nonneg k) (not_lt.mp hneg)
    exact ⟨by linarith, by linarith⟩

/-- A value of the sequence in the loop is reached without an overflow. -/
theorem toInt_add_stepNum {k : ℕ} (hin : loop.InLoop (k + 1)) {num : BitVec 64}
    (hnum : num.toInt = loop.value k) : (num + loop.stepNum).toInt = loop.value (k + 1) := by
  have hbounds := loop.value_bounds hin
  rw [BitVec.toInt_add, hnum, ← loop.value_succ]
  exact Int.bmod_eq_of_le_mul_two (by push_cast; linarith) (by push_cast; linarith)

/-! ## The iterations -/

variable {m}

theorem head_zero {s : State W} (hhead : loop.lowered.Head m loop.state 0 s) :
    loop.Ready s ∧ (s.memory.cells loop.loopCell).u.toInt = loop.start ∧
      (s.memory.cells loop.upperCell).u.toInt = loop.stop := by
  obtain ⟨s', hsetup', hready, hloop, hupper⟩ := loop.exists_setup m
  cases hhead with
  | first hsetup =>
    have hs : s' = s := Option.some.inj (hsetup'.symm.trans hsetup)
    subst hs
    exact ⟨hready, congrArg BitVec.toInt hloop, congrArg (fun obj ↦ obj.u.toInt) hupper⟩

/-- An iteration from one evaluation of the condition to the next. -/
theorem exists_iteration {k : ℕ} {s t u : State W} (hhead : loop.lowered.Head m loop.state k s)
    (hready : loop.Ready s) (hcond : m.condition loop.lowered.eval s = some (true, t))
    (hbody : m.execOps loop.copied t = some u) :
    ∃ v, loop.lowered.Head m loop.state (k + 1) v ∧ m.execOps loop.lowered.body t = some v ∧
      loop.Ready v ∧
      (v.memory.cells loop.loopCell).u = (u.memory.cells loop.loopCell).u + loop.stepNum ∧
      v.memory.cells loop.upperCell = u.memory.cells loop.upperCell := by
  have hcond' := hcond
  rw [lowered, loop.condition_eq m hready] at hcond'
  obtain ⟨-, ht⟩ := Prod.mk.inj (Option.some.inj hcond')
  have hready' : loop.Ready t := ht ▸ hready.alloca loop (by decide) _
  obtain ⟨v, hincrement, hready'', hloop, hupper⟩ :=
    loop.exists_increment m (hready'.copied loop m hbody)
  have hbody' : m.execOps loop.lowered.body t = some v :=
    (loop.execOps_body_eq_some m).mpr ⟨u, hbody, hincrement⟩
  exact ⟨v, .next hhead hcond hbody', hbody', hready'', hloop, hupper⟩

theorem Head.ready {k : ℕ} {s : State W} (hhead : loop.lowered.Head m loop.state k s) :
    loop.Ready s := by
  induction hhead with
  | first hsetup => exact (loop.head_zero (.first hsetup)).1
  | next hhead hcond hbody ih =>
    obtain ⟨u, hcopied, hincrement⟩ := (loop.execOps_body_eq_some m).mp hbody
    obtain ⟨v, -, hbody', hready, -⟩ := loop.exists_iteration hhead ih hcond hcopied
    exact Option.some.inj (hbody'.symm.trans hbody) ▸ hready

/-- The cells when the condition is evaluated. -/
theorem condition_of_head {k : ℕ} {s t : State W} {b : Bool}
    (hhead : loop.lowered.Head m loop.state k s)
    (hcond : m.condition loop.lowered.eval s = some (b, t)) :
    (b = true ↔ (s.memory.cells loop.loopCell).u.toInt ≤
        (s.memory.cells loop.upperCell).u.toInt) ∧
      t.content loop.i = some (s.memory.cells loop.loopCell) ∧
      t.memory.cells loop.loopCell = s.memory.cells loop.loopCell := by
  have hready := Head.ready loop hhead
  rw [lowered, loop.condition_eq m hready] at hcond
  obtain ⟨hb, ht⟩ := Prod.mk.inj (Option.some.inj hcond)
  have hcell : t.memory.cells loop.loopCell = s.memory.cells loop.loopCell := by
    rw [← ht, State.cells_alloca _ _ _ hready.loopCell_lt]
  have henv : t.env loop.i = some (.ref loop.loopCell) := by
    rw [← ht, State.env_alloca _ (loop.i_ne (by decide)), hready.env_i]
  refine ⟨?_, ?_, hcell⟩
  · rw [← hb, BitVec.sle_iff_toInt_le]
  · rw [State.content_of_ref _ henv, hcell]

theorem exists_condition {k : ℕ} {s : State W} (hhead : loop.lowered.Head m loop.state k s) :
    ∃ b t, m.condition loop.lowered.eval s = some (b, t) :=
  ⟨_, _, loop.condition_eq m (Head.ready loop hhead)⟩

/-! ## The executed iterations -/

section

variable (hkeeps : ∀ k s t u, loop.lowered.Head m loop.state k s →
  m.condition loop.lowered.eval s = some (true, t) → m.execOps loop.copied t = some u →
    loop.Keeps k t u)
include hkeeps

/-- The loop variable and the comparison after an iteration that keeps the cells. -/
theorem follows_of_keeps {k : ℕ} {s t u v : State W}
    (hhead : loop.lowered.Head m loop.state k s)
    (hvalue : (s.memory.cells loop.loopCell).u.toInt = loop.value k)
    (hcond : m.condition loop.lowered.eval s = some (true, t))
    (hcopied : m.execOps loop.copied t = some u)
    (hloop : (v.memory.cells loop.loopCell).u = (u.memory.cells loop.loopCell).u + loop.stepNum)
    (hupper : v.memory.cells loop.upperCell = u.memory.cells loop.upperCell) :
    ((v.memory.cells loop.loopCell).u.toInt ≤ (v.memory.cells loop.upperCell).u.toInt ↔
      loop.InLoop (k + 1)) ∧
    (loop.InLoop (k + 1) → (v.memory.cells loop.loopCell).u.toInt = loop.value (k + 1)) := by
  have hkeep := hkeeps k s t u hhead hcond hcopied
  obtain ⟨-, -, hcell⟩ := loop.condition_of_head hhead hcond
  rw [Keeps] at hkeep
  rw [hloop, hupper]
  split at hkeep
  case isTrue hin =>
    have hadd : ((u.memory.cells loop.loopCell).u + loop.stepNum).toInt = loop.value (k + 1) := by
      rw [hkeep.1, hcell]
      exact loop.toInt_add_stepNum hin hvalue
    rw [hadd]
    exact ⟨iff_of_true hkeep.2 hin, fun _ ↦ rfl⟩
  case isFalse hout =>
    exact ⟨iff_of_false (not_le.mpr hkeep) hout, fun hin ↦ absurd hin hout⟩

/-- The invariant of the loop. -/
theorem value_of_head (hstart : 0 < loop.stepNum.toInt ∨ loop.start = loop.stop) {k : ℕ}
    {s : State W} (hhead : loop.lowered.Head m loop.state k s) :
    ((s.memory.cells loop.loopCell).u.toInt ≤ (s.memory.cells loop.upperCell).u.toInt ↔
      loop.InLoop k) ∧
    (loop.InLoop k → (s.memory.cells loop.loopCell).u.toInt = loop.value k) := by
  induction hhead with
  | first hsetup =>
    obtain ⟨-, hloop, hupper⟩ := loop.head_zero (.first hsetup)
    rw [hloop, hupper, loop.value_zero]
    refine ⟨?_, fun _ ↦ rfl⟩
    rw [InLoop, Within, loop.value_zero]
    rcases hstart with hpos | heq
    · rw [if_pos hpos]
    · simp [heq]
  | next hhead hcond hbody ih =>
    obtain ⟨u, hcopied, -⟩ := (loop.execOps_body_eq_some m).mp hbody
    obtain ⟨v, -, hbody', -, hloop, hupper⟩ :=
      loop.exists_iteration hhead (Head.ready loop hhead) hcond hcopied
    have hv := Option.some.inj (hbody'.symm.trans hbody)
    have hin := ih.1.mp ((loop.condition_of_head hhead hcond).1.mp rfl)
    exact hv ▸ loop.follows_of_keeps hkeeps hhead (ih.2 hin) hcond hcopied hloop hupper

theorem runsBody_of_keeps (hstart : 0 < loop.stepNum.toInt ∨ loop.start = loop.stop) :
    loop.RunsBody m loop.lowered where
  setup := by
    obtain ⟨s, hsetup, -⟩ := loop.exists_setup m
    exact Option.isSome_iff_exists.mpr ⟨s, hsetup⟩
  condition hhead := by
    obtain ⟨b, t, hcond⟩ := loop.exists_condition hhead
    exact Option.isSome_iff_exists.mpr ⟨_, hcond⟩
  enters hhead hcond := by
    obtain ⟨hiff, hvalue⟩ := loop.value_of_head hkeeps hstart hhead
    obtain ⟨hle, hcontent, -⟩ := loop.condition_of_head hhead hcond
    have hin := hiff.mp (hle.mp rfl)
    exact ⟨hin, by rw [hcontent, Option.map_some, hvalue hin]⟩
  leaves hhead hcond hin := by
    obtain ⟨hiff, -⟩ := loop.value_of_head hkeeps hstart hhead
    have hle := (loop.condition_of_head hhead hcond).1.mpr (hiff.mpr hin)
    cases hle
  next hhead hcond hcopied := by
    obtain ⟨v, -, hbody, -⟩ :=
      loop.exists_iteration hhead (Head.ready loop hhead) hcond hcopied
    exact Option.isSome_iff_exists.mpr ⟨v, hbody⟩

end

/-- A loop that counts down runs the body for its first value only if that is the last one. -/
theorem RunsBody.pos_or_eq (hruns : loop.RunsBody m loop.lowered) :
    0 < loop.stepNum.toInt ∨ loop.start = loop.stop := by
  obtain ⟨s, hsetup, -⟩ := loop.exists_setup m
  have hhead : loop.lowered.Head m loop.state 0 s := .first hsetup
  obtain ⟨b, t, hcond⟩ := loop.exists_condition hhead
  obtain ⟨-, hloop, hupper⟩ := loop.head_zero hhead
  obtain ⟨hle, -⟩ := loop.condition_of_head hhead hcond
  rw [hloop, hupper] at hle
  rw [or_iff_not_imp_left]
  intro hneg
  have hin : loop.InLoop 0 ↔ loop.stop ≤ loop.start := by
    rw [InLoop, Within, if_neg hneg, loop.value_zero]
  cases b with
  | true => exact le_antisymm (hle.mp rfl) (hin.mp (hruns.enters hhead hcond).1)
  | false =>
    have hstop : ¬ loop.stop ≤ loop.start := fun h ↦ hruns.leaves hhead hcond (hin.mpr h)
    cases hle.mpr (le_of_not_ge hstop)

/-- The body has to keep the cells. -/
theorem RunsBody.keeps (hruns : loop.RunsBody m loop.lowered) {k : ℕ} {s t u : State W}
    (hhead : loop.lowered.Head m loop.state k s)
    (hcond : m.condition loop.lowered.eval s = some (true, t))
    (hcopied : m.execOps loop.copied t = some u) : loop.Keeps k t u := by
  obtain ⟨v, hhead', hbody, hready, hloop, hupper⟩ :=
    loop.exists_iteration hhead (Head.ready loop hhead) hcond hcopied
  obtain ⟨b, t', hcond'⟩ := loop.exists_condition hhead'
  obtain ⟨hle, hcontent, -⟩ := loop.condition_of_head hhead' hcond'
  rw [hloop, hupper] at hle
  rw [Keeps]
  cases b with
  | false =>
    rw [if_neg (hruns.leaves hhead' hcond')]
    exact lt_of_not_ge fun h ↦ Bool.false_ne_true (hle.mpr h)
  | true =>
    obtain ⟨hin, hvalue⟩ := hruns.enters hhead' hcond'
    rw [hcontent, Option.map_some, Option.some.injEq, hloop] at hvalue
    obtain ⟨-, hvalue'⟩ := hruns.enters hhead hcond
    obtain ⟨-, hcontent', hcell⟩ := loop.condition_of_head hhead hcond
    rw [hcontent', Option.map_some, Option.some.injEq, ← hcell] at hvalue'
    have hadd := loop.toInt_add_stepNum hin hvalue'
    have hsum : (u.memory.cells loop.loopCell).u + loop.stepNum =
        (t.memory.cells loop.loopCell).u + loop.stepNum :=
      BitVec.toInt_inj.mp (hvalue.trans hadd.symm)
    rw [if_pos hin]
    exact ⟨(BitVec.add_left_inj _).mp hsum, hvalue ▸ hle.mp rfl⟩

/-- The body of the lowered loop is executed for the values of the sequence in the loop if and only
if the loop counts up, or has one value, and the body neither moves the loop variable nor the
bound past a value. -/
theorem lowerNumericFor_runsBody_iff (m : Machine W) :
    (∃ lowered, (lowerNumericFor loop.op).bind loopOf = some lowered ∧
        loop.RunsBody m lowered) ↔
      (0 < loop.stepNum.toInt ∨ loop.start = loop.stop) ∧
        ∀ lowered, (lowerNumericFor loop.op).bind loopOf = some lowered →
          ∀ k s t u, lowered.Head m loop.state k s →
            m.condition lowered.eval s = some (true, t) → m.execOps loop.copied t = some u →
              loop.Keeps k t u := by
  have hlower (lowered : Loop) :
      (lowerNumericFor loop.op).bind loopOf = some lowered ↔ loop.lowered = lowered := by
    rw [loop.lower_eq, Option.some.injEq]
  simp only [hlower, exists_eq_left', forall_eq']
  constructor
  · intro hruns
    exact ⟨hruns.pos_or_eq, fun k s t u hhead hcond hcopied ↦ hruns.keeps loop hhead hcond hcopied⟩
  · rintro ⟨hstart, hkeeps⟩
    exact loop.runsBody_of_keeps hkeeps hstart

theorem countdown_escaped_lt : ∀ cell ∈ (∅ : Set ℕ), cell < 3 := by
  simp

theorem countdown_fresh :
    ∀ value ∈ [Value.res (OpId.src 0) 0, .res (.src 1) 0, .res (.src 2) 0],
      (∀ k, value.owner ≠ .new (.src 3) k) ∧ ∀ op ∈ defsOps ([] : List (Op OpId)),
        value.owner ≠ .clone op := by
  intro value hvalue
  have howner : ∀ value ∈ [Value.res (OpId.src 0) 0, .res (.src 1) 0, .res (.src 2) 0],
    ∃ n, value.owner = .src n := by simp [Value.owner]
  obtain ⟨n, hn⟩ := howner value hvalue
  rw [hn]
  simp [defsOps]

/-- `for i = 3, 1, -1 do end` -/
def countdown : NumericFor Unit where
  id := .src 3
  attr := .str "i"
  lower := .res (.src 0) 0
  upper := .res (.src 1) 0
  step := .res (.src 2) 0
  body := []
  endId := .src 4
  endAttr := .none
  state :=
    { env := fun
        | .res (.src op) 0 => if op < 3 then some (.ref op) else none
        | _ => none
      memory :=
        { cells := fun cell ↦ .ofInt (if cell = 0 then 3 else if cell = 1 then 1 else -1)
          nextCell := 3
          escaped := ∅
          world := ()
          escaped_lt := countdown_escaped_lt } }
  lowerCell := 0
  upperCell := 1
  stepCell := 2
  env_lower := rfl
  env_upper := rfl
  env_step := rfl
  upperCell_lt := by decide
  step_ne_zero := by decide
  fresh := countdown_fresh

section NoOps

variable {op : Op OpId} {s s' : State Unit}

theorem noOps_env (h : (none : Option (State Unit)) = some s') :
    ∀ value, value.owner ∉ op.defs → s'.env value = s.env value := by
  simp at h

theorem noOps_ref (h : (none : Option (State Unit)) = some s') :
    ∀ value, value.owner ∈ op.defs → ∀ cell, s'.env value = some (.ref cell) →
      cell ∈ s.reach [op] ∨ cell ∈ s.memory.escaped ∨ s.memory.nextCell ≤ cell := by
  simp at h

theorem noOps_memory (h : (none : Option (State Unit)) = some s') :
    s.memory.Touches (s.reach [op]) s'.memory := by
  simp at h

end NoOps

/-- A machine for programs that consist of loops alone. -/
def onlyLoops : Machine Unit where
  other _ _ := none
  call _ _ _ := none
  env_other := @noOps_env
  ref_other := @noOps_ref
  memory_other := @noOps_memory
  memory_call h := nomatch h

/-- The body is not executed for 3, 2 and 1. -/
theorem lowerNumericFor_not_runsBody :
    ¬ ∃ lowered, (lowerNumericFor countdown.op).bind loopOf = some lowered ∧
      countdown.RunsBody onlyLoops lowered := by
  rintro ⟨lowered, hlower, hruns⟩
  rw [countdown.lower_eq, Option.some.injEq] at hlower
  subst hlower
  rcases hruns.pos_or_eq with hpos | heq
  · exact absurd hpos (by decide)
  · exact absurd heq (by decide)

end NumericFor

end DeclarativeMlir.Lua.Cells
