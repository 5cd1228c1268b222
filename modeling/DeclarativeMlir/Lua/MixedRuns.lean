import DeclarativeMlir.Lua.ControlFlowRuns

/-!
# Runs of partly lowered code

Between two patterns of `cfExpand` the blocks of a function hold structured ops beside branches,
and `Mixed.step` executes both. A value is there once its op has been executed; an op with an
operand that is not there is stuck.
-/

namespace DeclarativeMlir.Lua.Mixed

variable {V S : Type}

/-- What follows a block of a structured op that is being executed. -/
inductive Frame where
  | branch (rest : List (Op OpId))
  | loop (eval region : Region OpId) (rest : List (Op OpId))
  | repeatUntil (region : Region OpId) (rest : List (Op OpId))

structure Config (V S : Type) where
  code : List (Op OpId)
  frames : List Frame
  env : Value OpId → Option V
  store : S

/-- The events of a control op, the code behind it and the frames then. -/
abbrev Move (V : Type) := List (Event V) × List (Op OpId) × List Frame

variable (interp : Interp V S) (region : Region OpId)

/-- An op that decides what is executed next. The `lua.cond` of a `lua.repeat` leaves the loop if
it is truthy. -/
def control (op : Op OpId) (operands : List V) (rest : List (Op OpId)) (frames : List Frame) :
    Option (Move V) :=
  match op.name with
  | .cond_if =>
    match op.regions, operands with
    | [first, second], [cond] =>
      some ([.cond cond], getBlock0 (if interp.truthy cond then first else second),
        .branch rest :: frames)
    | _, _ => none
  | .loop_while =>
    match op.regions with
    | [eval, region] => some ([], getBlock0 eval, .loop eval region rest :: frames)
    | _ => none
  | .repeat =>
    match op.regions with
    | [region] => some ([], getBlock0 region, .repeatUntil region rest :: frames)
    | _ => none
  | .until =>
    match op.regions, frames with
    | [eval], .repeatUntil region after :: frames =>
      some ([], getBlock0 eval, .repeatUntil region after :: frames)
    | _, _ => none
  | .cond =>
    match operands, frames with
    | [cond], .loop eval region after :: frames =>
      if interp.truthy cond then
        some ([.cond cond], getBlock0 region, .loop eval region after :: frames)
      else some ([.cond cond], after, frames)
    | [cond], .repeatUntil region after :: frames =>
      if interp.truthy cond then some ([.cond cond], after, frames)
      else some ([.cond cond], getBlock0 region, .repeatUntil region after :: frames)
    | _, _ => none
  | .end =>
    match frames with
    | .branch after :: frames => some ([], after, frames)
    | .loop eval region after :: frames =>
      some ([], getBlock0 eval, .loop eval region after :: frames)
    | _ => none
  | .ret => some ([.ret (op.map OpId.origin) operands], [], [])
  | .br =>
    match op.successors with
    | [dest] => (Cfg.blockOps region dest).map fun code ↦ ([], code, frames)
    | _ => none
  | .cond_br =>
    match operands, op.successors with
    | [cond], [trueDest, falseDest] =>
      (Cfg.blockOps region (if interp.truthy cond then trueDest else falseDest)).map
        fun code ↦ ([], code, frames)
    | _, _ => none
  | _ => none

/-- The values after an op `id` with results `results`. -/
def define (id : OpId) (results : ℕ → V) (env : Value OpId → Option V) : Value OpId → Option V :=
  setResults id (fun idx ↦ some (results idx)) env

/-- One step of an op whose operands have the values `operands`. -/
def execute (op : Op OpId) (rest : List (Op OpId)) (frames : List Frame)
    (env : Value OpId → Option V) (store : S) (operands : List V) :
    Option (List (Event V) × Config V S) :=
  if op.name.IsStraight then
    let (results, store') := interp.exec (op.map OpId.origin) operands store
    some ([.exec (op.map OpId.origin) operands],
      ⟨rest, frames, define op.id results env, store'⟩)
  else if op.name = .convert_bool_like then
    match operands with
    | [cond] =>
      some ([.cond cond],
        ⟨rest, frames, define op.id (fun _ ↦ interp.ofBool (interp.truthy cond)) env, store⟩)
    | _ => none
  else (control interp region op operands rest frames).map fun (events, code, frames) ↦
    (events, ⟨code, frames, env, store⟩)

/-- One step of the code. -/
def step : EventMachine.Step (Config V S) (Event V)
  | ⟨[], _, _, _⟩ => none
  | ⟨op :: rest, frames, env, store⟩ =>
    (op.operands.mapM env).bind (execute interp region op rest frames env store)

/-- The state in which a block of the region is entered from outside. -/
def enter (label : BlockId OpId) (env : Value OpId → Option V) (store : S) : Config V S :=
  ⟨(Cfg.blockOps region label).getD [], [], env, store⟩

end DeclarativeMlir.Lua.Mixed
