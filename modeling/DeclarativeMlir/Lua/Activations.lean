import DeclarativeMlir.Lua.ControlFlow
import Mathlib.Logic.Function.Basic

/-!
# Cells, activations and captures at run time

Every `lua.val` is the address of a cell that an `alloca` of the running activation has made;
captures hold the addresses of cells, and the values of tables and packs are contents of cells.
Functions are `luaopt.pack_func` ops, whose bodies the other passes have lowered to blocks.
-/

namespace DeclarativeMlir.Lua.Activations

variable {ι V : Type}

/-- `TObject`. Values that are neither tables nor functions are scalars. -/
inductive Content (ι V : Type) where
  | scalar (value : V)
  | table (address : ℕ)
  /-- `TClosure`: the code and the address of the capture array -/
  | fcn (body : Region ι) (capture : ℕ)
  | builtin (name : Attr)

/-- What a result of an op holds. -/
inductive Reg (ι V : Type) where
  /-- the address of a cell -/
  | ref (cell : ℕ)
  | raw (value : V)
  | pack (objs : List (Content ι V))
  | capture (address : ℕ)

/-- The meaning of the ops that compute scalars and of scalars as conditions and keys. -/
structure Interp (ι V : Type) where
  nil : V
  scalar : Op ι → List (Content ι V) → V
  truthy : Content ι V → Bool
  /-- the field `u` of an object, minus one -/
  index : Content ι V → ℤ

structure Activation (ι V : Type) where
  id : ℕ
  blocks : Region ι
  code : List (Op ι)
  env : Value ι → Option (Reg ι V)

structure State (ι V : Type) where
  /-- the running activation first; each of the others waits at a `lua.call` -/
  activations : List (Activation ι V)
  cells : ℕ → Content ι V
  /-- the activation that made a cell -/
  owner : ℕ → ℕ
  nextCell : ℕ
  nextActivation : ℕ
  captures : ℕ → List ℕ
  nextCapture : ℕ
  tables : ℕ → ℤ → Content ι V
  nextTable : ℕ

namespace Activation

variable (a : Activation ι V)

def ref (value : Value ι) : Option ℕ :=
  match a.env value with
  | some (.ref cell) => some cell
  | _ => none

def pack (value : Value ι) : Option (List (Content ι V)) :=
  match a.env value with
  | some (.pack objs) => some objs
  | _ => none

def capture (value : Value ι) : Option ℕ :=
  match a.env value with
  | some (.capture address) => some address
  | _ => none

/-- After `op`, with its results. -/
def next [DecidableEq ι] (op : Op ι) (code : List (Op ι)) (results : List (Reg ι V)) :
    Activation ι V :=
  { a with
    code := code
    env := fun
      | .res id i => if id = op.id then results[i]? else a.env (.res id i)
      | .arg label i => a.env (.arg label i) }

/-- At the start of block `dest`. -/
def jump [DecidableEq ι] (dest : BlockId ι) : Option (Activation ι V) :=
  (a.blocks.find? fun block ↦ block.id = dest).map fun block ↦ { a with code := block.ops }

end Activation

namespace State

variable (s : State ι V) (a : Activation ι V)

/-- The object in the cell that `value` refers to. -/
def content (value : Value ι) : Option (Content ι V) :=
  match a.env value with
  | some (.ref cell) => some (s.cells cell)
  | some (.raw v) => some (.scalar v)
  | _ => none

def setCell (cell : ℕ) (obj : Content ι V) : State ι V :=
  { s with cells := Function.update s.cells cell obj }

def setTable (address : ℕ) (entries : ℤ → Content ι V) : State ι V :=
  { s with tables := Function.update s.tables address entries }

/-- `lua_new_table_impl` -/
def newTable (nil : V) : State ι V :=
  { s.setTable s.nextTable fun _ ↦ .scalar nil with nextTable := s.nextTable + 1 }

/-- `luac.new_capture`, filled by `luac.add_capture` -/
def newCapture (cells : List ℕ) : State ι V :=
  { s with
    captures := Function.update s.captures s.nextCapture cells
    nextCapture := s.nextCapture + 1 }

variable [DecidableEq ι] (rest : List (Activation ι V)) (op : Op ι) (code : List (Op ι))

def next (results : List (Reg ι V)) : State ι V :=
  { s with activations := a.next op code results :: rest }

/-- `luallvm.alloca_value` for every object: the results are cells of the running activation. -/
def alloca (objs : List (Content ι V)) : State ι V :=
  { s with
    activations := a.next op code ((List.range objs.length).map fun i ↦ .ref (s.nextCell + i)) ::
      rest
    cells := fun cell ↦
      if cell < s.nextCell then s.cells cell else (objs[cell - s.nextCell]?).getD (s.cells cell)
    owner := fun cell ↦ if cell < s.nextCell then s.owner cell else a.id
    nextCell := s.nextCell + objs.length }

/-- `lua.call` of a function of the program -/
def enter (body : Region ι) (capture : ℕ) (args : List (Content ι V)) : State ι V :=
  { s with
    activations :=
      { id := s.nextActivation
        blocks := body
        code := getBlock0 body
        env := fun value ↦
          match body.head?, value with
          | some entry, .arg label 0 => if label = entry.id then some (.capture capture) else none
          | some entry, .arg label 1 => if label = entry.id then some (.pack args) else none
          | _, _ => none } :: s.activations
    nextActivation := s.nextActivation + 1 }

/-- `lua.ret`: the cells of the activation are released. -/
def leave (objs : List (Content ι V)) : State ι V :=
  { s with
    activations :=
      match rest with
      | [] => []
      | caller :: rest =>
        match caller.code with
        | [] => caller :: rest
        | call :: code => caller.next call code [.pack objs] :: rest }

/-- The objects of the operands `vals` and `tail`. -/
def concat : Option (List (Content ι V)) :=
  match op.attr with
  | .segments vals _ => do
    let objs ← (op.operands.take vals).mapM (s.content a)
    let tail ← (op.operands.drop vals).mapM a.pack
    some (objs ++ tail.flatten)
  | _ => none

end State

/-- Ops whose result is a new cell with a scalar. -/
def wrapOps : List OpName :=
  [.boolean, .number, .const_number, .get_string, .binary, .unary, .wrap_int, .le, .ne]

/-- Ops whose result is a machine integer. -/
def rawOps : List OpName := [.get_int_val, .add_i, .constant, .convert_bool_like]

/-- The op `op` of the running activation `a`, with `code` behind it. -/
def exec [DecidableEq ι] (interp : Interp ι V) (s : State ι V) (a : Activation ι V)
    (rest : List (Activation ι V)) (op : Op ι) (code : List (Op ι)) : Option (State ι V) :=
  if op.name ∈ wrapOps then do
    let objs ← op.operands.mapM (s.content a)
    some (s.alloca a rest op code [.scalar (interp.scalar op objs)])
  else if op.name ∈ rawOps then do
    let objs ← op.operands.mapM (s.content a)
    some (s.next a rest op code [.raw (interp.scalar op objs)])
  else match op.name, op.operands with
    | .alloc, [] => some (s.alloca a rest op code [.scalar interp.nil])
    | .nil, [] => some (s.alloca a rest op code [.scalar interp.nil])
    | .builtin, [] => some (s.alloca a rest op code [.builtin op.attr])
    | .table, [] =>
      some ((s.newTable interp.nil).alloca a rest op code [.table s.nextTable])
    | .copy, [tgt, val] => do
      let cell ← a.ref tgt
      let obj ← s.content a val
      some ((s.setCell cell obj).next a rest op code [])
    | .table_get, [tbl, key] => do
      let .table address ← s.content a tbl | none
      let key ← s.content a key
      some (s.alloca a rest op code [s.tables address (interp.index key)])
    | .table_set, [tbl, key, val] => do
      let .table address ← s.content a tbl | none
      let key ← s.content a key
      let obj ← s.content a val
      let entries := Function.update (s.tables address) (interp.index key) obj
      some ((s.setTable address entries).next a rest op code [])
    | .concat, _ => do
      let objs ← s.concat a op
      some (s.next a rest op code [.pack objs])
    | .unpack, [pack] => do
      let objs ← a.pack pack
      some (s.alloca a rest op code
        ((List.range op.numResults).map fun i ↦ (objs[i]?).getD (.scalar interp.nil)))
    | .unpackUnsafe, [pack] => do
      let objs ← a.pack pack
      if op.numResults ≤ objs.length then
        some (s.alloca a rest op code (objs.take op.numResults))
      else none
    | .pack_func, captures => do
      let [body] := op.regions | none
      let cells ← captures.mapM a.ref
      some ((s.newCapture cells).alloca a rest op code [.fcn body s.nextCapture])
    | .get_captures, [capture] => do
      let address ← a.capture capture
      some (s.next a rest op code (((s.captures address).take op.numResults).map .ref))
    | .call, [fcn, args] => do
      let objs ← a.pack args
      match ← s.content a fcn with
      | .fcn body capture => some (s.enter body capture objs)
      | .builtin _ => some (s.next a rest op code [.pack []])
      | _ => none
    | .ret, _ => do
      let objs ← s.concat a op
      some (s.leave rest objs)
    | .br, [] => do
      let [dest] := op.successors | none
      let a ← a.jump dest
      some { s with activations := a :: rest }
    | .cond_br, [cond] => do
      let [trueDest, falseDest] := op.successors | none
      let obj ← s.content a cond
      let a ← a.jump (if interp.truthy obj then trueDest else falseDest)
      some { s with activations := a :: rest }
    | _, _ => none

/-- One step of the running activation; `none` where the program crashes or has ended. -/
def step [DecidableEq ι] (interp : Interp ι V) (s : State ι V) : Option (State ι V) :=
  match s.activations with
  | [] => none
  | a :: rest =>
    match a.code with
    | [] => none
    | op :: code => exec interp s a rest op code

/-- `lua_main` is entered. -/
def State.initial [DecidableEq ι] (interp : Interp ι V) (main : Region ι) : State ι V where
  activations := [{ id := 0, blocks := main, code := getBlock0 main, env := fun _ ↦ none }]
  cells _ := .scalar interp.nil
  owner _ := 0
  nextCell := 0
  nextActivation := 1
  captures _ := []
  nextCapture := 0
  tables _ _ := .scalar interp.nil
  nextTable := 0

end DeclarativeMlir.Lua.Activations
