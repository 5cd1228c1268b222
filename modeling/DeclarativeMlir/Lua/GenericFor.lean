import DeclarativeMlir.Lua.CellMachine

/-!
# Lowered generic `for` loops

`lowerGenericFor` keeps the control variable in the cell of the third value of the `in` list and
calls the iterator with what the cells of the first two values hold at that time. The loop ends
when the payload of the control variable is that of a nil.
-/

namespace DeclarativeMlir.Lua.Cells

/-- A `lua.generic_for` and the state in which it is executed. -/
structure GenericFor (W : Type) where
  id : OpId
  param : String
  params : List String
  f : Value OpId
  s : Value OpId
  var : Value OpId
  body : List (Op OpId)
  endId : OpId
  endAttr : Attr
  /-- the program variables in the `in` list -/
  inVars : List (Value OpId)
  state : State W
  fCell : ℕ
  sCell : ℕ
  varCell : ℕ
  inVars_subset : inVars ⊆ [f, s, var]
  env_f : state.env f = some (.ref fCell)
  env_s : state.env s = some (.ref sCell)
  env_var : state.env var = some (.ref varCell)
  refs_lt : ∀ value cell, state.env value = some (.ref cell) → cell < state.memory.nextCell
  /-- the values of the `in` list are defined by other ops than those that are created -/
  fresh : ∀ value ∈ [f, s, var], (∀ k, value.owner ≠ .new id k) ∧
    ∀ op ∈ defsOps body, value.owner ≠ .clone op
  fresh_uses : ∀ value ∈ uses body, ∀ k, value.owner ≠ .new id k

namespace GenericFor

variable {W : Type} (loop : GenericFor W)

def numParams : ℕ := (loop.param :: loop.params).length

def endOp : Op OpId := .mk loop.endId .end loop.endAttr [] 0 [] []

def region : Region OpId := [.mk (.entry loop.id 0) loop.numParams (loop.body ++ [loop.endOp])]

def op : Op OpId :=
  .mk loop.id .generic_for (.strs (loop.param :: loop.params)) [loop.f, loop.s, loop.var] 0 []
    [loop.region]

/-- The value that the body has for its argument `i`. -/
def loopVar (i : ℕ) : Value OpId := .res (.new loop.id 3) i

def bvm : List (Value OpId × Value OpId) :=
  (List.range loop.numParams).map fun i ↦ (.arg (.entry loop.id 0) i, loop.loopVar i)

/-- The ops of the body of the lowered loop that are copied from the body. -/
def copied : List (Op OpId) := Cells.copied loop.bvm loop.body loop.endId loop.endAttr

def result (k : ℕ) : Value OpId := .res (.new loop.id k) 0

/-- The iterator and the state it is called with. -/
def iterator : TObject := loop.state.memory.cells loop.fCell

def invariantState : TObject := loop.state.memory.cells loop.sCell

def initial : TObject := loop.state.memory.cells loop.varCell

/-- The values that the call in front of the condition returned. -/
def returned : ℕ → State W → Option (List TObject)
  | 0, s => s.pack (loop.result 1)
  | _ + 1, s => s.pack (loop.result 9)

/-- The program variables in the `in` list are the same after a step. -/
def KeepsVars (s s' : State W) : Prop := ∀ value ∈ loop.inVars, s'.content value = s.content value

/-- The ops `ops` call the iterator with `control`, and do no more to the program variables. -/
structure CallsIterator (m : Machine W) (ops : List (Op OpId)) (control : TObject) (k : ℕ)
    (s : State W) : Prop where
  calls : m.calls ops s = [(loop.iterator, [loop.invariantState, control])]
  returns : ∀ rets memory,
    m.call loop.iterator [loop.invariantState, control] s.memory = some (rets, memory) →
      ∃ s', m.execOps ops s = some s' ∧ loop.returned k s' = some rets ∧
        loop.KeepsVars { s with memory := memory } s'

/-- The body is executed for the values that the iterator returns, up to a nil. -/
structure Iterates (m : Machine W) (lowered : Loop) : Prop where
  first : loop.CallsIterator m lowered.setup loop.initial 0 loop.state
  condition : ∀ {k s}, lowered.Head m loop.state k s →
    ∃ b t, m.condition lowered.eval s = some (b, t) ∧ loop.KeepsVars s t
  enters : ∀ {k s b t rets}, lowered.Head m loop.state k s →
    m.condition lowered.eval s = some (b, t) → loop.returned k s = some rets →
      (b = true ↔ (rets.getD 0 .nil).type ≠ .nil)
  binds : ∀ {k s t rets}, lowered.Head m loop.state k s →
    m.condition lowered.eval s = some (true, t) → loop.returned k s = some rets →
      ∀ i < loop.numParams, t.content (loop.loopVar i) = some (rets.getD i .nil)
  /-- behind the body -/
  next : ∀ {k s t u rets}, lowered.Head m loop.state k s →
    m.condition lowered.eval s = some (true, t) → loop.returned k s = some rets →
      m.execOps loop.copied t = some u →
        loop.CallsIterator m (lowered.body.drop loop.copied.length) (rets.getD 0 .nil) (k + 1) u

/-- What the iterator and the body may not do to the cells of the loop. -/
structure Respected (m : Machine W) (lowered : Loop) : Prop where
  payload : ∀ {k s rets}, lowered.Head m loop.state k s → loop.returned k s = some rets →
    ((rets.getD 0 .nil).u = 0 ↔ (rets.getD 0 .nil).type = .nil)
  /-- the cell of the control variable is not that of a program variable, or is left as it is -/
  control : ∀ {k s rets}, lowered.Head m loop.state k s → loop.returned k s = some rets →
    ∀ value ∈ loop.inVars, s.cell value = s.cell loop.var →
      s.content loop.var = some (rets.getD 0 .nil)
  body : ∀ {k s t u}, lowered.Head m loop.state k s →
    m.condition lowered.eval s = some (true, t) → m.execOps loop.copied t = some u →
      u.content loop.f = loop.state.content loop.f ∧
        u.content loop.s = loop.state.content loop.s ∧ u.content loop.var = t.content loop.var

/-! ## The lowered loop -/

/-- The call of the iterator with its arguments. -/
def callOps (k : ℕ) : List (Op OpId) :=
  [makeConcat (.new loop.id k) [loop.s, loop.var] [],
    create (.new loop.id (k + 1)) .call [loop.f, loop.result k] 1]

def bindFirst : List (Op OpId) :=
  [create (.new loop.id 2) .nil [] 1,
    create (.new loop.id 3) .unpack [loop.result 1] loop.numParams]

def eval : List (Op OpId) :=
  [create (.new loop.id 5) .copy [loop.var, loop.loopVar 0] 0,
    create (.new loop.id 6) .ne [loop.var, loop.result 2] 1,
    create (.new loop.id 7) .cond [loop.result 6] 0]

def copies : List (Op OpId) :=
  (List.range loop.numParams).map fun i ↦
    create (.new loop.id (11 + i)) .copy [loop.loopVar i, .res (.new loop.id 10) i] 0

def bindNext : List (Op OpId) :=
  create (.new loop.id 10) .unpack [loop.result 9] loop.numParams :: loop.copies

def clonedEnd : Op OpId := .mk (.clone loop.endId) .end loop.endAttr [] 0 [] []

/-- The ops behind the copied body. -/
def advance : List (Op OpId) := loop.callOps 8 ++ loop.bindNext ++ [loop.clonedEnd]

def lowered : Loop where
  setup := loop.callOps 0 ++ loop.bindFirst
  eval := loop.eval
  body := loop.copied ++ loop.advance

theorem lower_eq : (lowerGenericFor loop.op).bind loopOf = some loop.lowered := by
  have hbody : insertBeforeTerminator
      (copyInto none loop.bvm (loop.body ++ [loop.endOp])) (loop.callOps 8 ++ loop.bindNext) =
      loop.lowered.body := by
    rw [endOp, copyInto_end]
    simp [insertBeforeTerminator, lowered, copied, advance, clonedEnd]
  change some (Loop.mk (loop.callOps 0 ++ loop.bindFirst) loop.eval (insertBeforeTerminator
    (copyInto none loop.bvm (loop.body ++ [loop.endOp])) (loop.callOps 8 ++ loop.bindNext))) = _
  rw [hbody]
  rfl

theorem body_drop : loop.lowered.body.drop loop.copied.length = loop.advance :=
  List.drop_left

/-! ## The steps of the loop -/

/-- The cells that the loop uses are in place; those it allocates begin at `base`. -/
structure Ready (base : ℕ) (s : State W) : Prop where
  base_le : loop.state.memory.nextCell ≤ base
  lt : base + 1 + loop.numParams ≤ s.memory.nextCell
  env : ∀ value ∈ [loop.f, loop.s, loop.var], s.env value = loop.state.env value
  env_loopVar : ∀ i < loop.numParams, s.env (loop.loopVar i) = some (.ref (base + 1 + i))
  env_nil : s.env (loop.result 2) = some (.ref base)
  hides : s.Hides (loop.result 2) base
  nil : s.memory.cells base = .nil

/-- The loop variables hold the values `rets`. -/
def Bound (base : ℕ) (rets : List TObject) (s : State W) : Prop :=
  ∀ i < loop.numParams, s.memory.cells (base + 1 + i) = rets.getD i .nil

theorem numParams_pos : 0 < loop.numParams := Nat.succ_pos _

theorem value_fresh {value : Value OpId} (hvalue : value ∈ [loop.f, loop.s, loop.var]) (k : ℕ) :
    value.owner ≠ .new loop.id k :=
  (loop.fresh value hvalue).1 k

theorem value_notMem_copied {value : Value OpId} (hvalue : value ∈ [loop.f, loop.s, loop.var]) :
    value.owner ∉ defsOps loop.copied := by
  intro hmem
  obtain ⟨op, hop, h⟩ := owner_copied _ _ _ _ hmem
  exact (loop.fresh value hvalue).2 op hop h

theorem new_notMem_copied (k : ℕ) : .new loop.id k ∉ defsOps loop.copied := by
  intro hmem
  obtain ⟨op, -, h⟩ := owner_copied _ _ _ _ hmem
  cases h

theorem result_ne {j k : ℕ} (h : j ≠ k) : (loop.result j).owner ≠ .new loop.id k := by
  simpa [result, Value.owner] using h

/-- The body does not use the nil. -/
theorem nil_notMem_copied : loop.result 2 ∉ uses loop.copied := by
  intro hmem
  rw [copied, Cells.copied, copyInto_none, substOps_eq_map, List.map_append, List.map_singleton,
    List.dropLast_concat, ← substOps_eq_map, uses_substOps, List.mem_map] at hmem
  obtain ⟨value, hvalue, h⟩ := hmem
  rw [lookupOrDefault] at h
  cases hlookup : loop.bvm.lookup value with
  | some value' =>
    rw [hlookup, Option.getD_some] at h
    obtain ⟨front, back, hbvm, -⟩ := List.lookup_eq_some_iff.mp hlookup
    have hmem : (value, value') ∈ loop.bvm := hbvm ▸ List.mem_append_right _ List.mem_cons_self
    rw [bvm, List.mem_map] at hmem
    obtain ⟨i, -, hi⟩ := hmem
    have hvalue' : loop.loopVar i = value' := (Prod.mk.inj hi).2
    simp [← hvalue', loopVar, result] at h
  | none =>
    rw [hlookup, Option.getD_none] at h
    have howner := congrArg Value.owner h
    have hfresh := loop.fresh_uses value hvalue 2
    rw [Value.owner_map, cloneIds] at howner
    split at howner
    · cases howner
    · exact hfresh howner

/-- Code that neither defines nor reads what the loop keeps leaves the loop ready. -/
theorem Ready.execOps {m : Machine W} {base : ℕ} {s s' : State W} (hready : loop.Ready base s)
    {ops : List (Op OpId)}
    (hdefs : ∀ value ∈ [loop.f, loop.s, loop.var], value.owner ∉ defsOps ops)
    (hnil : .new loop.id 2 ∉ defsOps ops) (hvars : .new loop.id 3 ∉ defsOps ops)
    (huses : loop.result 2 ∉ uses ops) (hexec : m.execOps ops s = some s') :
    loop.Ready base s' where
  base_le := hready.base_le
  lt := hready.lt.trans (m.nextCell_execOps hexec)
  env value hvalue := (m.env_execOps hexec (hdefs value hvalue)).trans (hready.env value hvalue)
  env_loopVar i hi := by
    have howner : (loop.loopVar i).owner ∉ defsOps ops := hvars
    exact (m.env_execOps hexec howner).trans (hready.env_loopVar i hi)
  env_nil := by
    have howner : (loop.result 2).owner ∉ defsOps ops := hnil
    exact (m.env_execOps hexec howner).trans hready.env_nil
  hides := (hready.hides.execOps huses hexec).1
  nil := (hready.hides.execOps huses hexec).2.trans hready.nil

theorem Ready.alloca {base k : ℕ} {s : State W} (hready : loop.Ready base s) (hk : 3 < k)
    (objs : List TObject) : loop.Ready base (s.alloca (.new loop.id k) objs) where
  base_le := hready.base_le
  lt := hready.lt.trans (Nat.le_add_right _ _)
  env value hvalue := (s.env_alloca (loop.value_fresh hvalue k) objs).trans (hready.env value hvalue)
  env_loopVar i hi := by
    have hne : (loop.loopVar i).owner ≠ .new loop.id k := loop.result_ne (by omega)
    exact (s.env_alloca hne objs).trans (hready.env_loopVar i hi)
  env_nil := (s.env_alloca (loop.result_ne (by omega)) objs).trans hready.env_nil
  hides := hready.hides.alloca _ objs
  nil := (s.cells_alloca _ objs hready.hides.lt).trans hready.nil

/-! ## Calls of the iterator -/

def args (s : State W) : List TObject :=
  [s.memory.cells loop.sCell, s.memory.cells loop.varCell]

/-- The state behind a call. -/
def called (k : ℕ) (s : State W) (rets : List TObject) (memory : Memory W) : State W :=
  { s.define (.new loop.id k) [.pack (loop.args s)] with memory := memory }.define
    (.new loop.id (k + 1)) [.pack rets]

theorem env_called {k : ℕ} {value : Value OpId} (hconcat : value.owner ≠ .new loop.id k)
    (hcall : value.owner ≠ .new loop.id (k + 1)) (s : State W) (rets : List TObject)
    (memory : Memory W) : (loop.called k s rets memory).env value = s.env value := by
  rw [called, State.env_define _ hcall]
  exact s.env_define hconcat _

theorem env_called_result (k : ℕ) (s : State W) (rets : List TObject) (memory : Memory W) :
    (loop.called k s rets memory).env (loop.result (k + 1)) = some (.pack rets) := by
  rw [called, result, State.env_define_self]
  rfl

section

variable (m : Machine W) {s : State W}
  (henv : ∀ value ∈ [loop.f, loop.s, loop.var], s.env value = loop.state.env value)
include henv

theorem cells_of_env : s.env loop.f = some (.ref loop.fCell) ∧
    s.env loop.s = some (.ref loop.sCell) ∧ s.env loop.var = some (.ref loop.varCell) := by
  refine ⟨?_, ?_, ?_⟩
  · rw [henv _ (by simp), loop.env_f]
  · rw [henv _ (by simp), loop.env_s]
  · rw [henv _ (by simp), loop.env_var]

theorem execOp_callOps_concat (k : ℕ) :
    m.execOp (makeConcat (.new loop.id k) [loop.s, loop.var] []) s =
      some (s.define (.new loop.id k) [.pack (loop.args s)]) := by
  obtain ⟨-, hs, hvar⟩ := loop.cells_of_env henv
  exact m.execOp_concat s _ hs hvar

theorem env_callOps_call (k : ℕ) :
    (s.define (.new loop.id k) [.pack (loop.args s)]).env loop.f = some (.ref loop.fCell) ∧
      (s.define (.new loop.id k) [.pack (loop.args s)]).env (loop.result k) =
        some (.pack (loop.args s)) := by
  obtain ⟨hf, -, -⟩ := loop.cells_of_env henv
  refine ⟨?_, ?_⟩
  · rw [State.env_define _ (loop.value_fresh (by simp) k), hf]
  · rw [result, State.env_define_self]
    rfl

theorem execOps_callOps (k : ℕ) :
    m.execOps (loop.callOps k) s =
      (m.call (s.memory.cells loop.fCell) (loop.args s) s.memory).map fun ret ↦
        loop.called k s ret.1 ret.2 := by
  obtain ⟨hf, hargs⟩ := loop.env_callOps_call henv k
  have hcall := m.execOp_call _ (.new loop.id (k + 1)) hf hargs
  rw [callOps, m.execOps_cons_of_some (loop.execOp_callOps_concat m henv k), Machine.execOps, hcall,
    Option.bind_map]
  exact Option.map_eq_bind.symm

theorem calls_callOps (k : ℕ) {ops : List (Op OpId)} (hops : ∀ op ∈ ops, op.name ≠ .call) :
    m.calls (loop.callOps k ++ ops) s = [(s.memory.cells loop.fCell, loop.args s)] := by
  obtain ⟨hf, hargs⟩ := loop.env_callOps_call henv k
  have hconcat : s.callOf (makeConcat (.new loop.id k) [loop.s, loop.var] []) = none := rfl
  obtain ⟨t, ht⟩ : ∃ t, t = s.define (.new loop.id k) [.pack (loop.args s)] := ⟨_, rfl⟩
  have hcells : t.memory = s.memory := by rw [ht, State.memory_define]
  rw [← ht] at hf hargs
  have hcall : t.callOf (create (.new loop.id (k + 1)) .call [loop.f, loop.result k] 1) =
      some (s.memory.cells loop.fCell, loop.args s) := by
    change (t.content loop.f).bind
      (fun fcn ↦ (t.pack (loop.result k)).bind fun args ↦ some (fcn, args)) = _
    rw [t.content_of_ref hf, t.pack_of_env hargs, hcells]
    rfl
  rw [callOps, List.cons_append, m.calls_cons_of_some (loop.execOp_callOps_concat m henv k),
    hconcat, ← ht, List.cons_append, Machine.calls, hcall]
  split
  · rw [List.nil_append, m.calls_eq_nil hops]
    rfl
  · rfl

end

/-! ## Binding of the loop variables -/

theorem varCell_lt : loop.varCell < loop.state.memory.nextCell := loop.refs_lt _ _ loop.env_var

/-- The cells of the values of the `in` list are older than those of the loop. -/
theorem cell_lt {value : Value OpId} (hvalue : value ∈ [loop.f, loop.s, loop.var]) {base : ℕ}
    {s : State W} (hready : loop.Ready base s) {cell : ℕ} (hcell : s.env value = some (.ref cell)) :
    cell < base := by
  rw [hready.env value hvalue] at hcell
  exact (loop.refs_lt value cell hcell).trans_le hready.base_le

theorem refs_called {m : Machine W} {rets : List TObject} {memory : Memory W}
    (hcall : m.call loop.iterator (loop.args loop.state) loop.state.memory = some (rets, memory))
    (value : Value OpId) (cell : ℕ)
    (hcell : (loop.called 0 loop.state rets memory).env value = some (.ref cell)) :
    cell < memory.nextCell := by
  cases value with
  | arg label idx =>
    exact (loop.refs_lt _ _ hcell).trans_le (m.memory_call hcall).nextCell_le
  | res op idx =>
    simp only [called, State.define] at hcell
    split at hcell
    · have hmem := List.mem_of_getElem? hcell
      simp at hmem
    · split at hcell
      · have hmem := List.mem_of_getElem? hcell
        simp at hmem
      · exact (loop.refs_lt _ _ hcell).trans_le (m.memory_call hcall).nextCell_le

theorem exists_bindFirst {m : Machine W} {rets : List TObject} {memory : Memory W}
    (hcall : m.call loop.iterator (loop.args loop.state) loop.state.memory = some (rets, memory)) :
    ∃ s, m.execOps loop.bindFirst (loop.called 0 loop.state rets memory) = some s ∧
      loop.Ready memory.nextCell s ∧ loop.Bound memory.nextCell rets s ∧
      s.env (loop.result 1) = some (.pack rets) ∧
      ∀ cell < memory.nextCell, s.memory.cells cell = memory.cells cell := by
  obtain ⟨s₁, hs₁⟩ : ∃ s₁, s₁ = loop.called 0 loop.state rets memory := ⟨_, rfl⟩
  have hmemory : s₁.memory = memory := by rw [hs₁, called, State.memory_define]
  have hrefs : ∀ value cell, s₁.env value = some (.ref cell) → cell < s₁.memory.nextCell := by
    rw [hs₁]
    exact loop.refs_called hcall
  have hpack₁ : s₁.env (loop.result 1) = some (.pack rets) := by
    rw [hs₁, loop.env_called_result]
  have hnil := m.execOp_nil s₁ (.new loop.id 2)
  have hhides := State.Hides.of_alloca hrefs (.new loop.id 2) .nil
  obtain ⟨s₂, hs₂⟩ : ∃ s₂, s₂ = s₁.alloca (.new loop.id 2) [.nil] := ⟨_, rfl⟩
  have hpack₂ : s₂.env (loop.result 1) = some (.pack rets) := by
    rw [hs₂, State.env_alloca _ (loop.result_ne (by decide)), hpack₁]
  have hnext₂ : s₂.memory.nextCell = memory.nextCell + 1 := by
    rw [hs₂, State.nextCell_alloca, hmemory]
    rfl
  have hunpack := m.execOp_unpack s₂ (.new loop.id 3) loop.numParams hpack₂
  obtain ⟨objs, hobjs⟩ :
    ∃ objs, objs = (List.range loop.numParams).map fun i ↦ rets.getD i TObject.nil := ⟨_, rfl⟩
  have hlength : objs.length = loop.numParams := by rw [hobjs, List.length_map, List.length_range]
  rw [← hs₂] at hnil hhides
  rw [← hobjs] at hunpack
  rw [hmemory] at hhides
  have hcells : ∀ cell < memory.nextCell,
      (s₂.alloca (.new loop.id 3) objs).memory.cells cell = memory.cells cell := by
    intro cell hcell
    rw [s₂.cells_alloca _ _ (by omega), hs₂, State.cells_alloca _ _ _ (by rwa [hmemory]), hmemory]
  refine ⟨s₂.alloca (.new loop.id 3) objs, ?_, ⟨?_, ?_, ?_, ?_, ?_, ?_, ?_⟩, ?_, ?_, hcells⟩
  · rw [← hs₁, bindFirst, m.execOps_cons_of_some hnil, m.execOps_cons_of_some hunpack]
    rfl
  · exact (m.memory_call hcall).nextCell_le
  · rw [State.nextCell_alloca, hnext₂, hlength]
  · intro value hvalue
    rw [State.env_alloca _ (loop.value_fresh hvalue 3), hs₂,
      State.env_alloca _ (loop.value_fresh hvalue 2), hs₁,
      loop.env_called (loop.value_fresh hvalue 0) (loop.value_fresh hvalue 1)]
  · intro i hi
    rw [loopVar, State.env_alloca_self _ _ (by omega), hnext₂]
  · rw [State.env_alloca _ (loop.result_ne (by decide)), hs₂, result,
      State.env_alloca_self _ _ (by simp), hmemory, Nat.add_zero]
  · exact hhides.alloca _ _
  · rw [s₂.cells_alloca _ _ hhides.lt, hs₂, ← hmemory, State.cells_alloca_self]
  · intro i hi
    have hnew := s₂.cells_alloca_new (.new loop.id 3) (hlength.symm ▸ hi : i < objs.length)
    rw [hnext₂] at hnew
    rw [hnew]
    simp [hobjs]
  · rw [State.env_alloca _ (loop.result_ne (by decide)), hpack₂]

theorem exists_bindNext {m : Machine W} {base : ℕ} {s : State W} (hready : loop.Ready base s)
    {rets : List TObject} (hpack : s.env (loop.result 9) = some (.pack rets)) :
    ∃ s', m.execOps (loop.bindNext ++ [loop.clonedEnd]) s = some s' ∧ loop.Ready base s' ∧
      loop.Bound base rets s' ∧ s'.env (loop.result 9) = some (.pack rets) ∧
      ∀ cell < base, s'.memory.cells cell = s.memory.cells cell := by
  have hunpack := m.execOp_unpack s (.new loop.id 10) loop.numParams hpack
  obtain ⟨objs, hobjs⟩ :
    ∃ objs, objs = (List.range loop.numParams).map fun i ↦ rets.getD i TObject.nil := ⟨_, rfl⟩
  have hlength : objs.length = loop.numParams := by rw [hobjs, List.length_map, List.length_range]
  rw [← hobjs] at hunpack
  obtain ⟨t, ht⟩ : ∃ t, t = s.alloca (.new loop.id 10) objs := ⟨_, rfl⟩
  have hready' : loop.Ready base t := ht ▸ hready.alloca loop (by decide) objs
  have hsrcs : ∀ i < loop.numParams,
      t.env (.res (.new loop.id 10) i) = some (.ref (s.memory.nextCell + i)) := by
    intro i hi
    rw [ht, State.env_alloca_self _ _ (by omega)]
  obtain ⟨s', hcopies, henv, hnext, hescaped, hcells, hother⟩ :=
    m.execOps_copies (fun i ↦ .new loop.id (11 + i)) hready'.env_loopVar hsrcs hready.lt
  refine ⟨s', ?_, ?_, ?_, ?_, ?_⟩
  · rw [bindNext, List.cons_append, m.execOps_cons_of_some hunpack, ← ht, m.execOps_append, copies,
      hcopies]
    rfl
  · exact {
      base_le := hready'.base_le
      lt := hnext ▸ hready'.lt
      env := henv ▸ hready'.env
      env_loopVar := henv ▸ hready'.env_loopVar
      env_nil := henv ▸ hready'.env_nil
      hides := ⟨hnext ▸ hready'.hides.lt, hescaped ▸ hready'.hides.not_escaped,
        henv ▸ hready'.hides.env⟩
      nil := (hother base fun i _ ↦ by omega).trans hready'.nil }
  · intro i hi
    have hnew := s.cells_alloca_new (.new loop.id 10) (hlength.symm ▸ hi : i < objs.length)
    rw [hcells i hi, ht, hnew]
    simp [hobjs]
  · rw [henv, ht, State.env_alloca _ (loop.result_ne (by decide)), hpack]
  · intro cell hcell
    rw [hother cell fun i _ ↦ by omega, ht, State.cells_alloca _ _ _ (hcell.trans hready.hides.lt)]

/-! ## An iteration -/

theorem keepsVars_of_cells {base : ℕ} {s s' : State W} (hready : loop.Ready base s')
    (henv : ∀ value ∈ [loop.f, loop.s, loop.var], s.env value = loop.state.env value)
    (hcells : ∀ value ∈ loop.inVars, ∀ cell < base, s.env value = some (.ref cell) →
      s'.memory.cells cell = s.memory.cells cell) : loop.KeepsVars s s' := by
  intro value hvalue
  have hmem := loop.inVars_subset hvalue
  have henv' : s'.env value = s.env value := by rw [hready.env value hmem, henv value hmem]
  apply State.content_congr henv'
  intro cell hcell
  exact hcells value hvalue cell (loop.cell_lt hmem hready (henv'.trans hcell)) hcell

variable {m : Machine W}

theorem Ready.called {base k : ℕ} {s : State W} (hready : loop.Ready base s) (hk : 3 < k)
    {fcn : TObject} {args rets : List TObject} {memory : Memory W}
    (hcall : m.call fcn args s.memory = some (rets, memory)) :
    loop.Ready base (loop.called k s rets memory) := by
  obtain ⟨t, ht⟩ : ∃ t, t = s.define (.new loop.id k) [.pack (loop.args s)] := ⟨_, rfl⟩
  have hdefined : t.Hides (loop.result 2) base := ht ▸ hready.hides.define _ (by simp)
  have hmemory : t.memory.Touches ∅ memory := ht ▸ m.memory_call hcall
  have hcalled : State.Hides { t with memory := memory } (loop.result 2) base ∧
      memory.cells base = t.memory.cells base :=
    hdefined.of_touches (Set.notMem_empty _) hdefined.env hmemory
  subst ht
  have hfresh {j : ℕ} (hj : j ≤ 3) {value : Value OpId} (hvalue : value.owner = .new loop.id j) :
      (loop.called k s rets memory).env value = s.env value := by
    apply loop.env_called
    · rw [hvalue]
      exact loop.result_ne (by omega)
    · rw [hvalue]
      exact loop.result_ne (by omega)
  exact {
    base_le := hready.base_le
    lt := hready.lt.trans (m.memory_call hcall).nextCell_le
    env := fun value hvalue ↦ (loop.env_called (loop.value_fresh hvalue k)
      (loop.value_fresh hvalue (k + 1)) s rets memory).trans (hready.env value hvalue)
    env_loopVar := fun i hi ↦ (hfresh le_rfl rfl).trans (hready.env_loopVar i hi)
    env_nil := (hfresh (by decide) rfl).trans hready.env_nil
    hides := hcalled.1.define _ (by simp)
    nil := hcalled.2.trans hready.nil }

/-- The evaluation of the condition. -/
theorem exists_condition (m : Machine W) {base : ℕ} {s : State W} {rets : List TObject}
    (hready : loop.Ready base s) (hbound : loop.Bound base rets s) :
    ∃ t, m.condition loop.eval s = some ((rets.getD 0 .nil).u != 0, t) ∧ loop.Ready base t ∧
      loop.Bound base rets t ∧ t.memory.cells loop.varCell = rets.getD 0 .nil ∧
      ∀ cell < base, cell ≠ loop.varCell → t.memory.cells cell = s.memory.cells cell := by
  obtain ⟨-, -, hvar⟩ := loop.cells_of_env hready.env
  have hlt : loop.varCell < base := loop.varCell_lt.trans_le hready.base_le
  have hfirst := hready.env_loopVar 0 loop.numParams_pos
  have hobj := hbound 0 loop.numParams_pos
  have hcopy := m.execOp_copy s (.new loop.id 5) hvar hfirst
  rw [hobj] at hcopy
  obtain ⟨s₁, hs₁⟩ : ∃ s₁, s₁ = s.setCell loop.varCell (rets.getD 0 .nil) := ⟨_, rfl⟩
  rw [← hs₁] at hcopy
  have hcells₁ : ∀ cell ≠ loop.varCell, s₁.memory.cells cell = s.memory.cells cell := by
    intro cell hcell
    rw [hs₁, State.cells_setCell_of_ne _ hcell]
  have hvarCell₁ : s₁.memory.cells loop.varCell = rets.getD 0 .nil := by
    rw [hs₁, State.cells_setCell_self]
  have hready₁ : loop.Ready base s₁ := by
    have hnil := (hcells₁ base hlt.ne').trans hready.nil
    subst hs₁
    exact ⟨hready.base_le, hready.lt, hready.env, hready.env_loopVar, hready.env_nil,
      ⟨hready.hides.lt, hready.hides.not_escaped, hready.hides.env⟩, hnil⟩
  obtain ⟨-, -, hvar₁⟩ := loop.cells_of_env hready₁.env
  have hne := m.execOp_ne s₁ (.new loop.id 6) hvar₁ hready₁.env_nil
  rw [hvarCell₁, hready₁.nil] at hne
  obtain ⟨obj, hcond⟩ :
    ∃ obj, obj = TObject.ofBool ((rets.getD 0 .nil).u != TObject.nil.u) := ⟨_, rfl⟩
  rw [← hcond] at hne
  obtain ⟨t, ht⟩ : ∃ t, t = s₁.alloca (.new loop.id 6) [obj] := ⟨_, rfl⟩
  have hcells : ∀ cell < base + 1 + loop.numParams,
      t.memory.cells cell = s₁.memory.cells cell := by
    intro cell hcell
    rw [ht, s₁.cells_alloca _ _ (hcell.trans_le hready₁.lt)]
  have hresult : t.env (loop.result 6) = some (.ref s₁.memory.nextCell) := by
    rw [ht, result, State.env_alloca_self _ _ (by simp), Nat.add_zero]
  have hops : m.execOps loop.eval.dropLast s = some t := by
    change m.execOps [_, _] s = _
    rw [m.execOps_cons_of_some hcopy, m.execOps_cons_of_some hne, ht]
    rfl
  refine ⟨t, ?_, ht ▸ hready₁.alloca loop (by decide) _, ?_, ?_, ?_⟩
  · change (m.execOps loop.eval.dropLast s).bind
      (fun t ↦ (t.content (loop.result 6)).bind fun obj ↦ some (obj.toBool, t)) = _
    rw [hops, Option.bind_some, t.content_of_ref hresult, ht, State.cells_alloca_self,
      Option.bind_some, hcond, TObject.toBool_ofBool]
    rfl
  · intro i hi
    rw [hcells _ (by omega), hcells₁ _ (by omega), hbound i hi]
  · rw [hcells _ (by omega), hvarCell₁]
  · intro cell hcell hne
    rw [hcells _ (by omega), hcells₁ cell hne]

theorem call_notMem_bindNext : ∀ op ∈ loop.bindNext ++ [loop.clonedEnd], op.name ≠ .call := by
  intro op hop
  rw [bindNext, copies, List.cons_append, List.mem_cons, List.mem_append, List.mem_map,
    List.mem_singleton] at hop
  rcases hop with rfl | ⟨i, -, rfl⟩ | rfl <;> exact fun h ↦ nomatch h

theorem calls_advance (m : Machine W) {base : ℕ} {u : State W} (hready : loop.Ready base u) :
    m.calls loop.advance u = [(u.memory.cells loop.fCell, loop.args u)] := by
  rw [advance, List.append_assoc]
  exact loop.calls_callOps m hready.env 8 loop.call_notMem_bindNext

/-- What is done behind the body when the iterator returns. -/
theorem exists_advance {base : ℕ} {u : State W} (hready : loop.Ready base u) {rets : List TObject}
    {memory : Memory W}
    (hcall : m.call (u.memory.cells loop.fCell) (loop.args u) u.memory = some (rets, memory)) :
    ∃ v, m.execOps loop.advance u = some v ∧ loop.Ready base v ∧ loop.Bound base rets v ∧
      v.env (loop.result 9) = some (.pack rets) ∧ loop.KeepsVars { u with memory := memory } v := by
  have hready' := hready.called loop (k := 8) (by decide) hcall
  obtain ⟨v, hops, hreadyv, hbound, hpack, hcells⟩ :=
    loop.exists_bindNext hready' (loop.env_called_result 8 u rets memory)
  refine ⟨v, ?_, hreadyv, hbound, hpack, ?_⟩
  · rw [advance, List.append_assoc, m.execOps_append, loop.execOps_callOps m hready.env, hcall]
    exact hops
  · have henv : ∀ value ∈ [loop.f, loop.s, loop.var],
        State.env { u with memory := memory } value = loop.state.env value := hready.env
    apply loop.keepsVars_of_cells hreadyv henv
    intro value hvalue cell hcell _
    exact hcells cell hcell

theorem call_of_advance {base : ℕ} {u v : State W} (hready : loop.Ready base u)
    (hadvance : m.execOps loop.advance u = some v) :
    ∃ rets memory,
      m.call (u.memory.cells loop.fCell) (loop.args u) u.memory = some (rets, memory) := by
  rw [advance, List.append_assoc, m.execOps_append, loop.execOps_callOps m hready.env,
    Option.bind_eq_some_iff] at hadvance
  obtain ⟨t, ht, -⟩ := hadvance
  obtain ⟨⟨rets, memory⟩, hcall, -⟩ := Option.map_eq_some_iff.mp ht
  exact ⟨rets, memory, hcall⟩

/-! ## The iterations -/

theorem env_state : ∀ value ∈ [loop.f, loop.s, loop.var],
    loop.state.env value = loop.state.env value :=
  fun _ _ ↦ rfl

/-- What is done in front of the loop when the iterator returns. -/
theorem exists_setup {rets : List TObject} {memory : Memory W}
    (hcall : m.call loop.iterator (loop.args loop.state) loop.state.memory = some (rets, memory)) :
    ∃ s, m.execOps loop.lowered.setup loop.state = some s ∧ loop.Ready memory.nextCell s ∧
      loop.Bound memory.nextCell rets s ∧ s.env (loop.result 1) = some (.pack rets) ∧
      loop.KeepsVars { loop.state with memory := memory } s := by
  obtain ⟨s, hops, hready, hbound, hpack, hcells⟩ := loop.exists_bindFirst hcall
  have hcall' : m.call (loop.state.memory.cells loop.fCell) (loop.args loop.state)
      loop.state.memory = some (rets, memory) := hcall
  refine ⟨s, ?_, hready, hbound, hpack, ?_⟩
  · rw [lowered, m.execOps_append, loop.execOps_callOps m loop.env_state, hcall']
    exact hops
  · have henv : ∀ value ∈ [loop.f, loop.s, loop.var],
        State.env { loop.state with memory := memory } value = loop.state.env value :=
      loop.env_state
    apply loop.keepsVars_of_cells hready henv
    intro value hvalue cell hcell _
    exact hcells cell hcell

theorem calls_setup (m : Machine W) :
    m.calls loop.lowered.setup loop.state =
      [(loop.iterator, [loop.invariantState, loop.initial])] := by
  have hops : ∀ op ∈ loop.bindFirst, op.name ≠ .call := by
    intro op hop
    rw [bindFirst, List.mem_cons, List.mem_singleton] at hop
    rcases hop with rfl | rfl <;> exact fun h ↦ nomatch h
  exact loop.calls_callOps m loop.env_state 0 hops

theorem call_of_setup {s : State W} (hsetup : m.execOps loop.lowered.setup loop.state = some s) :
    ∃ rets memory, m.call loop.iterator (loop.args loop.state) loop.state.memory =
      some (rets, memory) := by
  rw [lowered, m.execOps_append, loop.execOps_callOps m loop.env_state,
    Option.bind_eq_some_iff] at hsetup
  obtain ⟨t, ht, -⟩ := hsetup
  obtain ⟨⟨rets, memory⟩, hcall, -⟩ := Option.map_eq_some_iff.mp ht
  exact ⟨rets, memory, hcall⟩

theorem Ready.copied {base : ℕ} {t u : State W} (hready : loop.Ready base t)
    (hcopied : m.execOps loop.copied t = some u) : loop.Ready base u :=
  hready.execOps loop (fun _ hvalue ↦ loop.value_notMem_copied hvalue) (loop.new_notMem_copied 2)
    (loop.new_notMem_copied 3) loop.nil_notMem_copied hcopied

theorem execOps_body_eq_some {t v : State W} :
    m.execOps loop.lowered.body t = some v ↔
      ∃ u, m.execOps loop.copied t = some u ∧ m.execOps loop.advance u = some v := by
  rw [lowered, m.execOps_append, Option.bind_eq_some_iff]

/-- The invariant of the loop. -/
theorem Head.ready {k : ℕ} {s : State W} (hhead : loop.lowered.Head m loop.state k s) :
    ∃ base rets, loop.Ready base s ∧ loop.Bound base rets s ∧ loop.returned k s = some rets := by
  induction hhead with
  | first hsetup =>
    obtain ⟨rets, memory, hcall⟩ := loop.call_of_setup hsetup
    obtain ⟨s', hsetup', hready, hbound, hpack, -⟩ := loop.exists_setup hcall
    have hs : s' = _ := Option.some.inj (hsetup'.symm.trans hsetup)
    subst hs
    exact ⟨memory.nextCell, rets, hready, hbound, s'.pack_of_env hpack⟩
  | next hhead hcond hbody ih =>
    obtain ⟨base, rets, hready, hbound, -⟩ := ih
    obtain ⟨t, hcond', hready', -⟩ := loop.exists_condition m hready hbound
    have ht := (Prod.mk.inj (Option.some.inj (hcond'.symm.trans hcond))).2
    obtain ⟨u, hcopied, hadvance⟩ := loop.execOps_body_eq_some.mp hbody
    have hreadyu := (ht ▸ hready').copied loop hcopied
    obtain ⟨rets', memory, hcall⟩ := loop.call_of_advance hreadyu hadvance
    obtain ⟨v, hadvance', hreadyv, hboundv, hpack, -⟩ := loop.exists_advance hreadyu hcall
    have hv : v = _ := Option.some.inj (hadvance'.symm.trans hadvance)
    subst hv
    exact ⟨base, rets', hreadyv, hboundv, v.pack_of_env hpack⟩

/-- The evaluation of the condition, by what the iterator returned. -/
structure Evaluated (rets : List TObject) (s : State W) (b : Bool) (t : State W) : Prop where
  cond : b = ((rets.getD 0 .nil).u != 0)
  ready : ∃ base, loop.Ready base s ∧ loop.Ready base t ∧ loop.Bound base rets t ∧
    ∀ cell < base, cell ≠ loop.varCell → t.memory.cells cell = s.memory.cells cell
  control : t.memory.cells loop.varCell = rets.getD 0 .nil

theorem Head.evaluated {k : ℕ} {s : State W} (hhead : loop.lowered.Head m loop.state k s)
    {rets : List TObject} (hrets : loop.returned k s = some rets) :
    ∃ b t, m.condition loop.lowered.eval s = some (b, t) ∧ loop.Evaluated rets s b t := by
  obtain ⟨base, rets', hready, hbound, hrets'⟩ := Head.ready loop hhead
  have heq : rets' = rets := Option.some.inj (hrets'.symm.trans hrets)
  subst heq
  obtain ⟨t, hcond, hready', hbound', hcontrol, hcells⟩ := loop.exists_condition m hready hbound
  exact ⟨_, t, hcond, rfl, ⟨base, hready, hready', hbound', hcells⟩, hcontrol⟩

theorem Head.evaluated_of_condition {k : ℕ} {s t : State W} {b : Bool}
    (hhead : loop.lowered.Head m loop.state k s) {rets : List TObject}
    (hrets : loop.returned k s = some rets)
    (hcond : m.condition loop.lowered.eval s = some (b, t)) : loop.Evaluated rets s b t := by
  obtain ⟨b', t', hcond', heval⟩ := Head.evaluated loop hhead hrets
  obtain ⟨rfl, rfl⟩ := Prod.mk.inj (Option.some.inj (hcond'.symm.trans hcond))
  exact heval

theorem content_of_mem {value : Value OpId} {cell base : ℕ} {s : State W}
    (hready : loop.Ready base s) (hvalue : value ∈ [loop.f, loop.s, loop.var])
    (henv : loop.state.env value = some (.ref cell)) :
    s.content value = some (s.memory.cells cell) :=
  s.content_of_ref ((hready.env value hvalue).trans henv)

theorem Evaluated.content_var {rets : List TObject} {s t : State W} {b : Bool}
    (heval : loop.Evaluated rets s b t) : t.content loop.var = some (rets.getD 0 .nil) := by
  obtain ⟨base, -, hready, -⟩ := heval.ready
  rw [loop.content_of_mem hready (by simp) loop.env_var, heval.control]

/-- The condition writes the cell of the control variable alone. -/
theorem Evaluated.keepsVars_iff {rets : List TObject} {s t : State W} {b : Bool}
    (heval : loop.Evaluated rets s b t) :
    loop.KeepsVars s t ↔ ∀ value ∈ loop.inVars, s.cell value = s.cell loop.var →
      s.content loop.var = some (rets.getD 0 .nil) := by
  have hcontent := heval.content_var loop
  obtain ⟨base, hready, hready', -, hcells⟩ := heval.ready
  have hcell {value : Value OpId} (hvalue : value ∈ [loop.f, loop.s, loop.var]) :
      t.cell value = s.cell value := by
    rw [State.cell, State.cell, hready'.env value hvalue, hready.env value hvalue]
  constructor
  · intro hkeeps value hvalue hsame
    have hmem := loop.inVars_subset hvalue
    have hvar : t.content value = t.content loop.var := by
      rw [State.content, State.content, hcell hmem, hcell (by simp), hsame]
    have hvar' : s.content value = s.content loop.var := by
      rw [State.content, State.content, hsame]
    rw [← hvar', ← hkeeps value hvalue, hvar, hcontent]
  · intro hsame value hvalue
    have hmem := loop.inVars_subset hvalue
    by_cases hcase : s.cell value = s.cell loop.var
    · have hvar : t.content value = t.content loop.var := by
        rw [State.content, State.content, hcell hmem, hcell (by simp), hcase]
      have hvar' : s.content value = s.content loop.var := by
        rw [State.content, State.content, hcase]
      rw [hvar, hcontent, hvar', hsame value hvalue hcase]
    · have henv : t.env value = s.env value := by
        rw [hready'.env value hmem, hready.env value hmem]
      apply State.content_congr henv
      intro cell hcell'
      have hne : cell ≠ loop.varCell := by
        rintro rfl
        have hvar := (hready.env loop.var (by simp)).trans loop.env_var
        exact hcase (((s.cell_eq_some).mpr hcell').trans ((s.cell_eq_some).mpr hvar).symm)
      exact hcells cell (loop.cell_lt hmem hready hcell') hne

/-! ## The executed iterations -/

theorem Respected.iterates (hrespected : loop.Respected m loop.lowered) :
    loop.Iterates m loop.lowered where
  first := {
    calls := loop.calls_setup m
    returns := by
      intro rets memory hcall
      obtain ⟨s, hsetup, -, -, hpack, hkeeps⟩ := loop.exists_setup hcall
      exact ⟨s, hsetup, s.pack_of_env hpack, hkeeps⟩ }
  condition hhead := by
    obtain ⟨-, rets, -, -, hrets⟩ := Head.ready loop hhead
    obtain ⟨b, t, hcond, heval⟩ := Head.evaluated loop hhead hrets
    exact ⟨b, t, hcond, (heval.keepsVars_iff loop).mpr (hrespected.control hhead hrets)⟩
  enters hhead hcond hrets := by
    have heval := Head.evaluated_of_condition loop hhead hrets hcond
    rw [heval.cond, bne_iff_ne, ne_eq, hrespected.payload hhead hrets]
  binds hhead hcond hrets i hi := by
    have heval := Head.evaluated_of_condition loop hhead hrets hcond
    obtain ⟨base, -, hready, hbound, -⟩ := heval.ready
    rw [State.content_of_ref _ (hready.env_loopVar i hi), hbound i hi]
  next {k s t u rets} hhead hcond hrets hcopied := by
    have heval := Head.evaluated_of_condition loop hhead hrets hcond
    have hvar := heval.content_var loop
    obtain ⟨base, -, hready, -⟩ := heval.ready
    have hreadyu := hready.copied loop hcopied
    obtain ⟨hf, hs, hvar'⟩ := hrespected.body hhead hcond hcopied
    rw [loop.content_of_mem hreadyu (by simp) loop.env_f, State.content_of_ref _ loop.env_f,
      Option.some.injEq] at hf
    rw [loop.content_of_mem hreadyu (by simp) loop.env_s, State.content_of_ref _ loop.env_s,
      Option.some.injEq] at hs
    rw [hvar, loop.content_of_mem hreadyu (by simp) loop.env_var, Option.some.injEq] at hvar'
    have hargs : loop.args u = [loop.invariantState, rets.getD 0 .nil] := by
      rw [args, hs, hvar', invariantState]
    rw [loop.body_drop]
    constructor
    · rw [loop.calls_advance m hreadyu, hf, hargs, iterator]
    · intro rets' memory hcall
      rw [← hargs, iterator, ← hf] at hcall
      obtain ⟨v, hadvance, -, -, hpack, hkeeps⟩ := loop.exists_advance hreadyu hcall
      exact ⟨v, hadvance, v.pack_of_env hpack, hkeeps⟩

theorem Iterates.respected (hiterates : loop.Iterates m loop.lowered) :
    loop.Respected m loop.lowered where
  payload {k s rets} hhead hrets := by
    obtain ⟨b, t, hcond, heval⟩ := Head.evaluated loop hhead hrets
    have henters := hiterates.enters hhead hcond hrets
    rw [heval.cond, bne_iff_ne] at henters
    exact not_iff_not.mp henters
  control hhead hrets := by
    obtain ⟨b, t, hcond, hkeeps⟩ := hiterates.condition hhead
    have heval := Head.evaluated_of_condition loop hhead hrets hcond
    exact (heval.keepsVars_iff loop).mp hkeeps
  body {k s t u} hhead hcond hcopied := by
    obtain ⟨-, rets, -, -, hrets⟩ := Head.ready loop hhead
    have heval := Head.evaluated_of_condition loop hhead hrets hcond
    have hvar := heval.content_var loop
    obtain ⟨base, -, hready, -⟩ := heval.ready
    have hreadyu := hready.copied loop hcopied
    have hcalls := (hiterates.next hhead hcond hrets hcopied).calls
    rw [loop.body_drop, loop.calls_advance m hreadyu, args] at hcalls
    simp only [List.cons.injEq, Prod.mk.injEq, and_true] at hcalls
    obtain ⟨hf, hs, hcontrol⟩ := hcalls
    refine ⟨?_, ?_, ?_⟩
    · rw [loop.content_of_mem hreadyu (by simp) loop.env_f, hf, State.content_of_ref _ loop.env_f,
        iterator]
    · rw [loop.content_of_mem hreadyu (by simp) loop.env_s, hs, State.content_of_ref _ loop.env_s,
        invariantState]
    · rw [loop.content_of_mem hreadyu (by simp) loop.env_var, hcontrol, hvar]

/-- The lowered loop runs over the values of the iterator if and only if a first value has the
payload 0 exactly if it is nil, the control variable's cell is not that of a program variable that
it would change, and the body leaves the cells of the three values as they were. -/
theorem lowerGenericFor_iterates_iff (m : Machine W) :
    (∃ lowered, (lowerGenericFor loop.op).bind loopOf = some lowered ∧ loop.Iterates m lowered) ↔
      ∀ lowered, (lowerGenericFor loop.op).bind loopOf = some lowered →
        loop.Respected m lowered := by
  have hlower (lowered : Loop) :
      (lowerGenericFor loop.op).bind loopOf = some lowered ↔ loop.lowered = lowered := by
    rw [loop.lower_eq, Option.some.injEq]
  simp only [hlower, exists_eq_left', forall_eq']
  exact ⟨fun h ↦ h.respected, fun h ↦ h.iterates⟩

/-- `for i in f, s, 1 do end` -/
def forIn : GenericFor Unit where
  id := .src 3
  param := "i"
  params := []
  f := .res (.src 0) 0
  s := .res (.src 1) 0
  var := .res (.src 2) 0
  body := []
  endId := .src 4
  endAttr := .none
  inVars := [.res (.src 0) 0, .res (.src 1) 0]
  state :=
    { env := fun
        | .res (.src op) 0 => if op < 3 then some (.ref op) else none
        | _ => none
      memory :=
        { cells := fun cell ↦ if cell = 0 then ⟨.fcn, 7⟩ else .ofInt 1
          nextCell := 3
          escaped := ∅
          world := ()
          escaped_lt := fun _ h ↦ nomatch h } }
  fCell := 0
  sCell := 1
  varCell := 2
  inVars_subset := by simp
  env_f := rfl
  env_s := rfl
  env_var := rfl
  refs_lt value cell hcell := by
    dsimp only at hcell ⊢
    split at hcell
    · split at hcell
      case isTrue hlt =>
        cases hcell
        exact hlt
      case isFalse => cases hcell
    · cases hcell
  fresh value hvalue := by
    have howner : ∀ value ∈ [Value.res (OpId.src 0) 0, .res (.src 1) 0, .res (.src 2) 0],
      ∃ n, value.owner = .src n := by simp [Value.owner]
    obtain ⟨n, hn⟩ := howner value hvalue
    rw [hn]
    exact ⟨fun k h ↦ (nomatch h), fun op hop ↦ (nomatch hop)⟩
  fresh_uses value hvalue := nomatch hvalue

/-- A machine whose functions return 0. -/
def returnsZero : Machine Unit where
  other _ _ := none
  call _ _ memory := some ([.ofInt 0], memory)
  env_other h := nomatch h
  ref_other h := nomatch h
  memory_other h := nomatch h
  memory_call h := by
    cases h
    exact .refl _ _

/-- The value 0 ends the loop. -/
theorem lowerGenericFor_not_iterates :
    ¬ ∃ lowered, (lowerGenericFor forIn.op).bind loopOf = some lowered ∧
      forIn.Iterates returnsZero lowered := by
  rintro ⟨lowered, hlower, hiterates⟩
  rw [forIn.lower_eq, Option.some.injEq] at hlower
  subst hlower
  have hcall : returnsZero.call forIn.iterator (forIn.args forIn.state) forIn.state.memory =
      some ([.ofInt 0], forIn.state.memory) := rfl
  obtain ⟨s, hsetup, -, -, hpack, -⟩ := forIn.exists_setup hcall
  have hpayload := hiterates.respected.payload (.first hsetup) (s.pack_of_env hpack)
  exact absurd (hpayload.mp rfl) (by decide)

end GenericFor

end DeclarativeMlir.Lua.Cells
