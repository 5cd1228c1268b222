import DeclarativeMlir.Lua.Generator

/-!
# The generator as it walks the syntax tree

`Generator` has one builder and moves its insertion point: a block that is pushed is filled from
its start, and the block below is filled further from its end once it is popped. The syntax trees
are those of the grammar, and the blocks are kept in the order in which they are created.
-/

namespace DeclarativeMlir.Lua.AstWalker

/-! ## Syntax trees -/

mutual

inductive VarOrExp where
  | var (ctx : Var)
  | exp (ctx : Exp)

inductive Var where
  | mk (name : String) (varSuffix : List VarSuffix)

inductive VarSuffix where
  | exp (nameAndArgs : List Args) (key : Exp)
  | name (nameAndArgs : List Args) (name : String)

inductive Args where
  /-- `f()` has an empty list -/
  | explist (exps : List Exp)
  | tableconstructor (fields : List Field)
  | string (text : String)

inductive Exp where
  | literal (value : Literal)
  /-- `...` and the numbers and strings that are not implemented -/
  | unsupported (message : String)
  | functiondef (body : Funcbody)
  | prefixexp (head : VarOrExp) (nameAndArgs : List Args)
  | tableconstructor (fields : List Field)
  | unary (op : String) (val : Exp)
  | binary (op : String) (lhs rhs : Exp)

inductive Field where
  | keyed (key val : Exp)
  | named (name : String) (val : Exp)
  | positional (val : Exp)

inductive Funcbody where
  | mk (parlist : List String) (block : Block)

inductive Block where
  | mk (stats : List Stat) (retstat : Option (List Exp))

/-- An `ifblock` or an `elseifblock`. -/
inductive CondBlock where
  | mk (exp : Exp) (block : Block)

inductive Stat where
  | semicolon
  /-- labels, `break`, `goto` and enclosed blocks -/
  | unsupported (message : String)
  | assignlist (varlist : List Var) (explist : List Exp)
  | functioncall (head : VarOrExp) (nameAndArgs : List Args)
  | whileloop (exp : Exp) (block : Block)
  | repeatloop (block : Block) (exp : Exp)
  | conditionalchain (ifblock : CondBlock) (elseifblock : List CondBlock)
      (elseblock : Option Block)
  | numericfor (name : String) (lower upper : Exp) (step : Option Exp) (block : Block)
  | genericfor (namelist : List String) (explist : List Exp) (block : Block)
  | namedfunctiondef (name : String) (body : Funcbody)
  | localnamedfunctiondef (name : String) (body : Funcbody)
  | localvarlist (namelist : List String) (explist : Option (List Exp))

end

def Block.retstat : Block → Option (List Exp)
  | .mk _ retstat => retstat

/-! ## The builder -/

structure Val where
  op : ℕ
  idx : ℕ
  /-- the type of the value is `lua.pack()` -/
  isPack : Bool
  deriving DecidableEq, Repr

/-- An op that has been created, numbered in the order of creation. Its regions are blocks of the
state. -/
structure GenOp where
  id : ℕ
  name : OpName
  attr : Attr
  operands : List Val
  numResults : ℕ
  deriving DecidableEq, Repr

/-- The traits of the dialect. -/
def GenOp.isTerminator (op : GenOp) : Bool :=
  op.name ∈ [.until, .end, .ret, .cond]

/-- The entry block of a region of an op. -/
structure GenBlock where
  op : ℕ
  region : ℕ
  numArgs : ℕ
  ops : List GenOp
  deriving DecidableEq, Repr

/-- In front of the last `fromEnd` ops of a block. -/
structure InsertionPoint where
  block : ℕ
  fromEnd : ℕ
  deriving DecidableEq, Repr

def GenBlock.insert (fromEnd : ℕ) (op : GenOp) (block : GenBlock) : GenBlock :=
  { block with ops := block.ops.insertIdx (block.ops.length - fromEnd) op }

structure State where
  blocks : List GenBlock
  blockStack : List (Option ℕ)
  curBlock : Option ℕ
  insertion : Option InsertionPoint
  nextOp : ℕ
  deriving DecidableEq, Repr

inductive Failure where
  | unsupported (message : String)
  | noInsertionPoint
  | emptyStack
  | tooManyBlockPops
  deriving DecidableEq, Repr

abbrev Gen (α : Type) := StateT State (Except Failure) α

def create (name : OpName) (attr : Attr) (operands : List Val) (numResults : ℕ) : Gen ℕ :=
  fun st ↦ match st.insertion with
    | none => .error .noInsertionPoint
    | some point => .ok (st.nextOp, { st with
        blocks := st.blocks.modify point.block
          (GenBlock.insert point.fromEnd ⟨st.nextOp, name, attr, operands, numResults⟩)
        nextOp := st.nextOp + 1 })

def addEntryBlock (op region numArgs : ℕ) : Gen ℕ := fun st ↦
  .ok (st.blocks.length, { st with blocks := st.blocks ++ [⟨op, region, numArgs, []⟩] })

def insertAtStart (block : ℕ) : Gen Unit := modify fun st ↦
  { st with insertion := some ⟨block, ((st.blocks[block]?).map fun b ↦ b.ops.length).getD 0⟩ }

def insertAtEnd (block : ℕ) : Gen Unit := modify fun st ↦
  { st with insertion := some ⟨block, 0⟩ }

def pushBlock (block : ℕ) : Gen Unit := do
  modify fun st ↦
    { st with blockStack := st.curBlock :: st.blockStack, curBlock := some block }
  insertAtStart block

def popBlock : Gen Unit := do
  match (← get).blockStack with
  | [] => throw .emptyStack
  | none :: _ => throw .tooManyBlockPops
  | some block :: blockStack => do
    modify fun st ↦ { st with blockStack := blockStack, curBlock := some block }
    insertAtEnd block

/-! ## Helpers -/

def res (op : ℕ) : Val := ⟨op, 0, false⟩

def pack (op : ℕ) : Val := ⟨op, 0, true⟩

def handleBool (val : ℤ) : Gen Val := do return res (← create .boolean (.int val) [] 1)

def literal : Literal → Gen Val
  | .nilvalue => do return res (← create .nil .none [] 1)
  | .falsevalue => handleBool 0
  | .truevalue => handleBool 1
  | .number value => do return res (← create .number value [] 1)
  | .string text => do return res (← create .get_string (.str text) [] 1)

def makeConcat (vals tail : List Val) (concatLike : OpName) (numResults : ℕ) : Gen ℕ :=
  create concatLike (.segments vals.length tail.length) (vals ++ tail) numResults

/-- The last value is the tail if it is a pack. -/
def splitTail (vals : List Val) : List Val × List Val :=
  match vals.getLast? with
  | some last => if last.isPack then (vals.dropLast, [last]) else (vals, [])
  | none => (vals, [])

def assignAll (unpack : ℕ) : ℕ → List Val → Gen Unit
  | _, [] => return
  | i, tgt :: varList => do
    let _ ← create .assign .none [tgt, ⟨unpack, i, false⟩] 1
    assignAll unpack (i + 1) varList

def assertNoRetstat (block : Block) (message : String) : Gen Unit :=
  if block.retstat.isSome then throw (.unsupported message) else return

def allocLocals : List String → Gen (List Val)
  | [] => return []
  | name :: namelist => do
    let lalloc ← create .alloc_local (.str name) [] 1
    let varList ← allocLocals namelist
    return res lalloc :: varList

/-- The second loop of `conditionalchain`. -/
def closeElseifs : List CondBlock → Gen Unit
  | [] => return
  | _ :: elseifs => do
    popBlock
    let _ ← create .end .none [] 0
    closeElseifs elseifs

/-! ## The walk -/

mutual

def varOrExp : VarOrExp → Gen Val
  | .var ctx => var ctx
  | .exp ctx => exp ctx false
termination_by ctx => (sizeOf ctx, 0)

def var : Var → Gen Val
  | .mk name suffixes => do
    let val ← create .get_or_alloc (.str name) [] 1
    varSuffixes (res val) suffixes
termination_by ctx => (sizeOf ctx, 0)

def varSuffixes (val : Val) : List VarSuffix → Gen Val
  | [] => return val
  | .exp nameAndArgs key :: suffixes => do
    let val ← handleFunctionLike val nameAndArgs true
    let key ← exp key false
    let get ← create .table_get .none [val, key] 1
    varSuffixes (res get) suffixes
  | .name nameAndArgs name :: suffixes => do
    let val ← handleFunctionLike val nameAndArgs true
    let key ← create .get_string (.str name) [] 1
    let get ← create .table_get .none [val, res key] 1
    varSuffixes (res get) suffixes
termination_by ctx => (sizeOf ctx, 0)

/-- A call for each of the arguments; the last one gives its pack unless it is unpacked, too. -/
def handleFunctionLike (val : Val) : List Args → Bool → Gen Val
  | [], _ => return val
  | args :: allArgs, unpackLast => do
    let args ← nameAndArgs args
    let call ← create .call .none [val, args] 1
    if !unpackLast && allArgs.isEmpty then return pack call
    else
      let unpack ← create .unpack .none [pack call] 1
      handleFunctionLike (res unpack) allArgs unpackLast
termination_by ctx => (sizeOf ctx, 0)

def nameAndArgs : Args → Gen Val
  | .explist exps => explist exps
  | .tableconstructor fields => do
    let tbl ← tableconstructor fields
    return pack (← makeConcat [tbl] [] .concat 1)
  | .string text => do
    let val ← literal (.string text)
    return pack (← makeConcat [val] [] .concat 1)
termination_by ctx => (sizeOf ctx, 0)

def exp : Exp → Bool → Gen Val
  | .literal value, _ => literal value
  | .unsupported message, _ => throw (.unsupported message)
  | .functiondef body, _ => functiondef body
  | .prefixexp head allArgs, allowPack => do
    let val ← varOrExp head
    handleFunctionLike val allArgs (!allowPack)
  | .tableconstructor fields, _ => tableconstructor fields
  | .unary op val, _ => do
    let val ← exp val false
    return res (← create .unary (.str op) [val] 1)
  | .binary op lhs rhs, _ => do
    let lhs ← exp lhs false
    let rhs ← exp rhs false
    return res (← create .binary (.str op) [lhs, rhs] 1)
termination_by ctx => (sizeOf ctx, 0)

/-- The loop of `getValsAndTail`. -/
def vals : List Exp → Gen (List Val)
  | [] => return []
  | e :: es => do
    let val ← exp e es.isEmpty
    let rest ← vals es
    return val :: rest
termination_by ctx => (sizeOf ctx, 0)

def explist (exps : List Exp) : Gen Val := do
  let (vals, tail) := splitTail (← vals exps)
  return pack (← makeConcat vals tail .concat 1)
termination_by (sizeOf exps, 1)

def tableconstructor (fieldlist : List Field) : Gen Val := do
  let tbl ← create .table .none [] 1
  fields tbl 1 fieldlist
  return res tbl
termination_by (sizeOf fieldlist, 1)

def fields (tbl idx : ℕ) : List Field → Gen Unit
  | [] => return
  | .keyed key val :: rest => do
    let key ← exp key false
    let val ← exp val false
    let _ ← create .table_set .none [res tbl, key, val] 0
    fields tbl idx rest
  | .named name val :: rest => do
    let key ← create .get_string (.str name) [] 1
    let val ← exp val false
    let _ ← create .table_set .none [res tbl, res key, val] 0
    fields tbl idx rest
  | .positional val :: rest => do
    let key ← create .number (.int idx) [] 1
    let val ← exp val false
    let _ ← create .table_set .none [res tbl, res key, val] 0
    fields tbl (idx + 1) rest
termination_by ctx => (sizeOf ctx, 0)

def functiondef : Funcbody → Gen Val
  | .mk params (.mk stats retstat) => do
    let fcnDef ← create .function_def (.strs params) [] 1
    pushBlock (← addEntryBlock fcnDef 0 params.length)
    statlist stats
    handleRetStat retstat
    popBlock
    return res fcnDef
termination_by ctx => (sizeOf ctx, 0)

/-- `return` without expressions is like an absent one. -/
def handleRetStat : Option (List Exp) → Gen Unit
  | none => do
    let _ ← makeConcat [] [] .ret 0
  | some exps => do
    let (vals, tail) := splitTail (← vals exps)
    let _ ← makeConcat vals tail .ret 0
termination_by ctx => (sizeOf ctx, 0)

def handleCondRetstat : Option (List Exp) → Gen Unit
  | none => do
    let _ ← create .end .none [] 0
  | some exps => do
    let (vals, tail) := splitTail (← vals exps)
    let _ ← makeConcat vals tail .ret 0
termination_by ctx => (sizeOf ctx, 0)

def block : Block → Gen Unit
  | .mk stats _ => statlist stats
termination_by ctx => (sizeOf ctx, 0)

def statlist : List Stat → Gen Unit
  | [] => return
  | s :: stats => do
    stat s
    statlist stats
termination_by ctx => (sizeOf ctx, 0)

def varlist : List Var → Gen (List Val)
  | [] => return []
  | v :: vars => do
    let val ← var v
    let rest ← varlist vars
    return val :: rest
termination_by ctx => (sizeOf ctx, 0)

def handleAssignList (varList : List Val) (exps : List Exp) : Gen Unit := do
  let expPack ← explist exps
  let unpack ← create .unpack .none [expPack] varList.length
  assignAll unpack 0 varList
termination_by (sizeOf exps, 2)

def step : Option Exp → Gen Val
  | none => do return res (← create .number (.int 1) [] 1)
  | some e => exp e false
termination_by ctx => (sizeOf ctx, 0)

def ifblock : CondBlock → Gen Unit
  | .mk cond (.mk stats retstat) => do
    let cond ← exp cond false
    let cond_if ← create .cond_if .none [cond] 0
    pushBlock (← addEntryBlock cond_if 0 0)
    statlist stats
    handleCondRetstat retstat
    popBlock
    pushBlock (← addEntryBlock cond_if 1 0)
termination_by ctx => (sizeOf ctx, 0)

/-- The first loop of `conditionalchain`. -/
def ifblocks : List CondBlock → Gen Unit
  | [] => return
  | elseif :: elseifs => do
    ifblock elseif
    ifblocks elseifs
termination_by ctx => (sizeOf ctx, 0)

def elseblock : Option Block → Gen Unit
  | some (.mk stats retstat) => do
    statlist stats
    handleCondRetstat retstat
  | none => do
    let _ ← create .end .none [] 0
termination_by ctx => (sizeOf ctx, 0)

def stat : Stat → Gen Unit
  | .semicolon => return
  | .unsupported message => throw (.unsupported message)
  | .assignlist vars exps => do
    let varList ← varlist vars
    handleAssignList varList exps
  | .functioncall head allArgs => do
    let val ← varOrExp head
    let _ ← handleFunctionLike val allArgs false
  | .whileloop cond body => do
    let loop ← create .loop_while .none [] 0
    pushBlock (← addEntryBlock loop 0 0)
    let cond ← exp cond false
    let _ ← create .cond .none [cond] 0
    popBlock
    pushBlock (← addEntryBlock loop 1 0)
    block body
    assertNoRetstat body "unexpected terminator in while"
    let _ ← create .end .none [] 0
    popBlock
  | .repeatloop body cond => do
    let loop ← create .repeat .none [] 0
    pushBlock (← addEntryBlock loop 0 0)
    block body
    assertNoRetstat body "unexpected terminator in repeat"
    let until_op ← create .until .none [] 0
    pushBlock (← addEntryBlock until_op 0 0)
    let cond ← exp cond false
    let _ ← create .cond .none [cond] 0
    popBlock
    popBlock
  | .conditionalchain cond elseifs otherwise => do
    ifblock cond
    ifblocks elseifs
    elseblock otherwise
    closeElseifs elseifs
    popBlock
  | .numericfor name lower upper step_exp body => do
    let lower ← exp lower false
    let upper ← exp upper false
    let step ← step step_exp
    let loop ← create .numeric_for (.str name) [lower, upper, step] 0
    pushBlock (← addEntryBlock loop 0 1)
    block body
    assertNoRetstat body "unsupported return statement"
    let _ ← create .end .none [] 0
    popBlock
  | .genericfor params exps body => do
    let expPack ← explist exps
    let unpack ← create .unpack .none [expPack] 3
    let loop ← create .generic_for (.strs params)
      [⟨unpack, 0, false⟩, ⟨unpack, 1, false⟩, ⟨unpack, 2, false⟩] 0
    pushBlock (← addEntryBlock loop 0 params.length)
    block body
    assertNoRetstat body "unexpected terminator statement"
    let _ ← create .end .none [] 0
    popBlock
  | .namedfunctiondef name body => do
    let fcn ← functiondef body
    let alloc ← create .get_or_alloc (.str name) [] 1
    let _ ← create .assign .none [res alloc, fcn] 1
  | .localnamedfunctiondef name body => do
    let fcn ← functiondef body
    let var ← create .alloc_local (.str name) [] 1
    let _ ← create .assign .none [res var, fcn] 1
  | .localvarlist namelist none => do
    let _ ← allocLocals namelist
  | .localvarlist namelist (some exps) => do
    let varList ← allocLocals namelist
    handleAssignList varList exps
termination_by ctx => (sizeOf ctx, 0)

end

/-- `lua_main` is op 0. -/
def chunk (ctx : Block) : Gen Unit := do
  pushBlock (← addEntryBlock 0 0 0)
  block ctx
  assertNoRetstat ctx "unexpected return statement"
  let _ ← makeConcat [] [] .ret 0

def State.start : State := ⟨[], [], none, none, 1⟩

end DeclarativeMlir.Lua.AstWalker
