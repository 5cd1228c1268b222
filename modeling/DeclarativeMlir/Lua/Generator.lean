import DeclarativeMlir.Lua.ClosureConversion

/-!
# The generator of the Lua compiler

The supported subset of Lua as the grammar structures it, and the operations that `Generator`
emits for it. Nodes of the syntax tree carry numbers, and every emitted op is named after the node
it is emitted for.
-/

namespace DeclarativeMlir.Lua

/-! ## Syntax -/

inductive Literal where
  | nilvalue
  | falsevalue
  | truevalue
  /-- `value` is the attribute for the type of the number -/
  | number (value : Attr)
  | string (text : String)

mutual

inductive Var where
  | name (n : ℕ) (x : String)
  /-- `tbl[key]`; `tbl.x` has a string literal as its key -/
  | index (n : ℕ) (tbl key : Exp)

inductive Exp where
  | literal (n : ℕ) (value : Literal)
  | unary (n : ℕ) (op : String) (val : Exp)
  | binary (n : ℕ) (op : String) (lhs rhs : Exp)
  | var (var : Var)
  | paren (exp : Exp)
  /-- a `prefixexp` with one more `nameAndArgs` than `fcn` -/
  | call (n : ℕ) (fcn : Exp) (args : List Exp)
  | table (n : ℕ) (fields : List Field)
  | functiondef (body : Funcbody)

inductive Field where
  | keyed (n : ℕ) (key val : Exp)
  | named (n : ℕ) (x : String) (val : Exp)
  | positional (n : ℕ) (val : Exp)

inductive Funcbody where
  | mk (n : ℕ) (params : List String) (body : Block)

inductive Block where
  | mk (stats : List Stat) (retstat : Option (List Exp))

inductive Stat where
  | assignlist (n : ℕ) (varlist : List Var) (explist : List Exp)
  | functioncall (n : ℕ) (fcn : Exp) (args : List Exp)
  | whileloop (n : ℕ) (cond : Exp) (body : List Stat)
  | repeatloop (n : ℕ) (body : List Stat) (cond : Exp)
  /-- an `elseif` is the only statement of the else block -/
  | conditionalchain (n : ℕ) (cond : Exp) (ifblock elseblock : Block)
  | numericfor (n : ℕ) (x : String) (lower upper : Exp) (step : Option Exp) (body : List Stat)
  | genericfor (n : ℕ) (params : List String) (explist : List Exp) (body : List Stat)
  | namedfunctiondef (n : ℕ) (x : String) (body : Funcbody)
  | localnamedfunctiondef (n : ℕ) (x : String) (body : Funcbody)
  /-- an empty `explist` is an absent one -/
  | localvarlist (n : ℕ) (namelist : List String) (explist : List Exp)

end

def Funcbody.node : Funcbody → ℕ
  | .mk n _ _ => n

def Block.retstat : Block → Option (List Exp)
  | .mk _ retstat => retstat

namespace OpId

/-! The ops emitted for a node besides its own. -/

def concat (n : ℕ) : OpId := .new (.src n) 0

/-- The `lua.unpack` of an assignment. -/
def unpack (n : ℕ) : OpId := .new (.src n) 1

def assign (n i : ℕ) : OpId := .new (.new (.src n) i) 2

def allocLocal (n i : ℕ) : OpId := .new (.new (.src n) i) 3

/-- The `lua.unpack` of a call or a loop. -/
def unpackCall (n : ℕ) : OpId := .new (.src n) 5

/-- The terminator of a block. -/
def terminator (n i : ℕ) : OpId := .new (.new (.src n) i) 6

/-- A literal that is not in the source. -/
def implicit (n : ℕ) : OpId := .new (.src n) 7

end OpId

/-! ## Generated ops -/

namespace Generator

/-- An op without regions. -/
def create (id : OpId) (name : OpName) (attr : Attr) (operands : List (Value OpId))
    (numResults : ℕ) : Op OpId :=
  .mk id name attr operands numResults [] []

/-- The `i`-th region of `op`, with one block. -/
def entryRegion (op : OpId) (i numArgs : ℕ) (ops : List (Op OpId)) : Region OpId :=
  [.mk (.entry op i) numArgs ops]

def handleBool (id : OpId) (val : ℤ) : Op OpId := create id .boolean (.int val) [] 1

def literal (id : OpId) : Literal → Op OpId
  | .nilvalue => create id .nil .none [] 1
  | .falsevalue => handleBool id 0
  | .truevalue => handleBool id 1
  | .number value => create id .number value [] 1
  | .string text => create id .get_string (.str text) [] 1

def varVal : Var → Value OpId
  | .name n _ | .index n _ _ => .res (.src n) 0

/-- The value that `exp` returns. A call returns its pack only where packs are allowed. -/
def expVal : Exp → Bool → Value OpId
  | .literal n _, _ | .unary n _ _, _ | .binary n _ _ _, _ | .table n _, _ => .res (.src n) 0
  | .var v, _ => varVal v
  | .paren e, _ => expVal e false
  | .call n _ _, allowPack => if allowPack then .res (.src n) 0 else .res (.unpackCall n) 0
  | .functiondef body, _ => .res (.src body.node) 0

/-- The type of the value is `lua.pack`, where packs are allowed. -/
def isPack : Exp → Bool
  | .call _ _ _ => true
  | _ => false

def getValsAndTail : List Exp → List (Value OpId) × List (Value OpId)
  | [] => ([], [])
  | [e] => if isPack e then ([], [expVal e true]) else ([expVal e true], [])
  | e :: es => (expVal e false :: (getValsAndTail es).1, (getValsAndTail es).2)

def makeConcat (id : OpId) (concatLike : OpName) (numResults : ℕ)
    (vals : List (Value OpId) × List (Value OpId)) : Op OpId :=
  create id concatLike (.segments vals.1.length vals.2.length) (vals.1 ++ vals.2) numResults

/-- The ops of `handleAssignList` behind those of the expressions. -/
def handleAssignList (n : ℕ) (varList : List (Value OpId)) (exps : List Exp) :
    List (Op OpId) :=
  makeConcat (.concat n) .concat 1 (getValsAndTail exps) ::
    create (.unpack n) .unpack .none [.res (.concat n) 0] varList.length ::
    varList.zipIdx.map fun (tgt, i) ↦
      create (.assign n i) .assign .none [tgt, .res (.unpack n) i] 1

/-- The `lua.alloc_local` ops of a local statement. -/
def allocLocals (n : ℕ) (namelist : List String) : List (Op OpId) :=
  namelist.zipIdx.map fun (x, i) ↦ create (.allocLocal n i) .alloc_local (.str x) [] 1

/-- The terminator of a function body, or of a block that ends in `return`. -/
def handleRetStat (id : OpId) (retstat : Option (List Exp)) : Op OpId :=
  makeConcat id .ret 0 (getValsAndTail (retstat.getD []))

def handleCondRetstat (id : OpId) (retstat : Option (List Exp)) : Op OpId :=
  match retstat with
  | some _ => handleRetStat id retstat
  | none => create id .end .none [] 0

/-- The step of a numeric loop; it is 1 if there is none in the source. -/
def stepVal (n : ℕ) : Option Exp → Value OpId
  | some e => expVal e false
  | none => .res (.implicit n) 0

/-- The `lua.call` of `fcn` with the pack of its arguments. -/
def handleCall (n : ℕ) (fcn : Exp) (args : List Exp) : List (Op OpId) :=
  [makeConcat (.concat n) .concat 1 (getValsAndTail args),
    create (.src n) .call .none [expVal fcn false, .res (.concat n) 0] 1]

mutual

def var : Var → List (Op OpId)
  | .name n x => [create (.src n) .get_or_alloc (.str x) [] 1]
  | .index n tbl key =>
    exp tbl false ++ exp key false ++
      [create (.src n) .table_get .none [expVal tbl false, expVal key false] 1]

def exp : Exp → Bool → List (Op OpId)
  | .literal n value, _ => [literal (.src n) value]
  | .unary n op val, _ =>
    exp val false ++ [create (.src n) .unary (.str op) [expVal val false] 1]
  | .binary n op lhs rhs, _ =>
    exp lhs false ++ exp rhs false ++
      [create (.src n) .binary (.str op) [expVal lhs false, expVal rhs false] 1]
  | .var v, _ => var v
  | .paren e, _ => exp e false
  | .call n fcn args, allowPack =>
    exp fcn false ++ explist args ++ handleCall n fcn args ++
      if allowPack then []
      else [create (.unpackCall n) .unpack .none [.res (.src n) 0] 1]
  | .table n fields, _ =>
    create (.src n) .table .none [] 1 :: tableconstructor n 1 fields
  | .functiondef body, _ => functiondef body

def varlist : List Var → List (Op OpId)
  | [] => []
  | v :: vs => var v ++ varlist vs

/-- The ops of `getValsAndTail`. -/
def explist : List Exp → List (Op OpId)
  | [] => []
  | e :: es => exp e es.isEmpty ++ explist es

/-- The fields of the table `n`, the next positional one at `idx`. -/
def tableconstructor (n idx : ℕ) : List Field → List (Op OpId)
  | [] => []
  | .keyed m key val :: fields =>
    exp key false ++ exp val false ++
      create (.src m) .table_set .none
        [.res (.src n) 0, expVal key false, expVal val false] 0 ::
      tableconstructor n idx fields
  | .named m x val :: fields =>
    create (.implicit m) .get_string (.str x) [] 1 :: exp val false ++
      create (.src m) .table_set .none
        [.res (.src n) 0, .res (.implicit m) 0, expVal val false] 0 ::
      tableconstructor n idx fields
  | .positional m val :: fields =>
    create (.implicit m) .number (.int idx) [] 1 :: exp val false ++
      create (.src m) .table_set .none
        [.res (.src n) 0, .res (.implicit m) 0, expVal val false] 0 ::
      tableconstructor n (idx + 1) fields

def functiondef : Funcbody → List (Op OpId)
  | .mk n params body =>
    [.mk (.src n) .function_def (.strs params) [] 1 []
      [entryRegion (.src n) 0 params.length
        (block body ++ [handleRetStat (.terminator n 0) body.retstat])]]

/-- The statements of a block and the expressions that it returns. -/
def block : Block → List (Op OpId)
  | .mk stats none => statlist stats
  | .mk stats (some exps) => statlist stats ++ explist exps

def statlist : List Stat → List (Op OpId)
  | [] => []
  | s :: ss => stat s ++ statlist ss

def stat : Stat → List (Op OpId)
  | .assignlist n vars exps =>
    varlist vars ++ explist exps ++ handleAssignList n (vars.map varVal) exps
  | .functioncall n fcn args => exp fcn false ++ explist args ++ handleCall n fcn args
  | .whileloop n cond body =>
    [.mk (.src n) .loop_while .none [] 0 []
      [entryRegion (.src n) 0 0
        (exp cond false ++ [create (.terminator n 0) .cond .none [expVal cond false] 0]),
        entryRegion (.src n) 1 0
          (statlist body ++ [create (.terminator n 1) .end .none [] 0])]]
  | .repeatloop n body cond =>
    [.mk (.src n) .repeat .none [] 0 []
      [entryRegion (.src n) 0 0
        (statlist body ++
          [.mk (.terminator n 0) .until .none [] 0 []
            [entryRegion (.terminator n 0) 0 0
              (exp cond false ++
                [create (.terminator n 1) .cond .none [expVal cond false] 0])]])]]
  | .conditionalchain n cond ifblock elseblock =>
    exp cond false ++
      [.mk (.src n) .cond_if .none [expVal cond false] 0 []
        [entryRegion (.src n) 0 0
          (block ifblock ++ [handleCondRetstat (.terminator n 0) ifblock.retstat]),
          entryRegion (.src n) 1 0
            (block elseblock ++ [handleCondRetstat (.terminator n 1) elseblock.retstat])]]
  | .numericfor n x lower upper step body =>
    exp lower false ++ exp upper false ++ stepOps n step ++
      [.mk (.src n) .numeric_for (.str x)
        [expVal lower false, expVal upper false, stepVal n step] 0 []
        [entryRegion (.src n) 0 1
          (statlist body ++ [create (.terminator n 0) .end .none [] 0])]]
  | .genericfor n params exps body =>
    explist exps ++
      [makeConcat (.concat n) .concat 1 (getValsAndTail exps),
        create (.unpackCall n) .unpack .none [.res (.concat n) 0] 3,
        .mk (.src n) .generic_for (.strs params)
          [.res (.unpackCall n) 0, .res (.unpackCall n) 1, .res (.unpackCall n) 2] 0 []
          [entryRegion (.src n) 0 params.length
            (statlist body ++ [create (.terminator n 0) .end .none [] 0])]]
  | .namedfunctiondef n x body =>
    functiondef body ++
      [create (.src n) .get_or_alloc (.str x) [] 1,
        create (.assign n 0) .assign .none [.res (.src n) 0, .res (.src body.node) 0] 1]
  | .localnamedfunctiondef n x body =>
    functiondef body ++
      [create (.allocLocal n 0) .alloc_local (.str x) [] 1,
        create (.assign n 0) .assign .none
          [.res (.allocLocal n 0) 0, .res (.src body.node) 0] 1]
  | .localvarlist n namelist exps =>
    allocLocals n namelist ++
      if exps.isEmpty then []
      else explist exps ++
        handleAssignList n
          ((List.range namelist.length).map fun i ↦ .res (.allocLocal n i) 0) exps

def stepOps (n : ℕ) : Option Exp → List (Op OpId)
  | some e => exp e false
  | none => [create (.implicit n) .number (.int 1) [] 1]

end

/-- The body of `lua_main`. -/
def chunk (n : ℕ) (stats : List Stat) : List (Op OpId) :=
  statlist stats ++ [handleRetStat (.terminator n 0) none]

end Generator

end DeclarativeMlir.Lua
