import Mathlib.Algebra.Order.Ring.Int
import Mathlib.Data.List.Basic
import Mathlib.Data.List.Nodup
import Mathlib.Logic.Function.Basic
import Mathlib.Logic.Relation

/-!
# Stencil programs

The visitor of stencil functions writes and reads every variable through an op that holds its name.
A second visitor then replaces these ops by the results of assignments, and two patterns remove
loads and assignments.
-/

namespace DeclarativeMlir.Oec

/-! ## Programs -/

inductive BinOp where
  | add
  | mult
  deriving DecidableEq, Repr

inductive Expr where
  | name (id : String)
  | constant (value : ℤ)
  | call (func : Expr) (args : List Expr)
  | getAttr (value : Expr) (attr : String)
  | subscript (value slice : Expr)
  | tuple (elts : List Expr)
  | list (elts : List Expr)
  /-- `USub` is the only operator -/
  | unaryOp (operand : Expr)
  | binOp (op : BinOp) (left right : Expr)

inductive Stmt where
  | assign (target : String) (value : Expr)
  | expr (value : Expr)
  | ret (value : Option Expr)
  | functionDef (name : String) (params : List String) (body : List Stmt)

/-! ## Ops -/

/-- Values of type `py.object`. Every function numbers the values it has. -/
abbrev Value := ℕ

/-- Values of type `py.handle` -/
abbrev Handle := ℕ

/-- The ops that do not handle variables. -/
inductive Kind where
  | constant (value : ℤ)
  | call
  | getAttr (name : String)
  | subscript
  | makeTuple
  | makeList
  | unary (op : String)
  | binary (op : String)
  | ret
  deriving DecidableEq, Repr

inductive Op where
  | name (ref : Handle) (var : String)
  | assign (new ref : Handle) (arg : Value)
  | load (res : Value) (ref : Handle)
  | other (res : Value) (kind : Kind) (operands : List Value)
  | func (name : String) (args : List Value) (body : List Op)

/-! ## `StencilProgramVisitor` -/

/-- The ops of an expression, its values and the next number. -/
structure Emitted where
  ops : List Op
  values : List Value
  next : ℕ

/-- An op behind others, with their values as its operands. -/
def Emitted.andThen (emitted : Emitted) (kind : Kind) : Emitted where
  ops := emitted.ops ++ [.other emitted.next kind emitted.values]
  values := [emitted.next]
  next := emitted.next + 1

def BinOp.visit : BinOp → String
  | add => "+"
  | mult => "*"

mutual

def Expr.visit (next : ℕ) : Expr → Emitted
  | .name id => ⟨[.name next id, .load (next + 1) next], [next + 1], next + 2⟩
  | .constant value => Emitted.andThen ⟨[], [], next⟩ (.constant value)
  | .call func args =>
    let func := func.visit next
    let args := visitExprs func.next args
    Emitted.andThen ⟨func.ops ++ args.ops, func.values ++ args.values, args.next⟩ .call
  | .getAttr value attr => (value.visit next).andThen (.getAttr attr)
  | .subscript value slice =>
    let arg := value.visit next
    let idx := slice.visit arg.next
    Emitted.andThen ⟨arg.ops ++ idx.ops, arg.values ++ idx.values, idx.next⟩ .subscript
  | .tuple elts => (visitExprs next elts).andThen .makeTuple
  | .list elts => (visitExprs next elts).andThen .makeList
  | .unaryOp operand => (operand.visit next).andThen (.unary "-")
  | .binOp op left right =>
    let lhs := left.visit next
    let rhs := right.visit lhs.next
    Emitted.andThen ⟨lhs.ops ++ rhs.ops, lhs.values ++ rhs.values, rhs.next⟩ (.binary op.visit)

def visitExprs (next : ℕ) : List Expr → Emitted
  | [] => ⟨[], [], next⟩
  | expr :: exprs =>
    let first := expr.visit next
    let rest := visitExprs first.next exprs
    ⟨first.ops ++ rest.ops, first.values ++ rest.values, rest.next⟩

end

/-- The assignments of the parameters from argument `arg` on. -/
def visitParams (arg next : ℕ) : List String → List Op
  | [] => []
  | param :: params =>
    .name next param :: .assign (next + 1) next arg :: visitParams (arg + 1) (next + 2) params

mutual

/-- The ops of a statement, with the number of the next value. -/
def Stmt.visit (next : ℕ) : Stmt → List Op × ℕ
  | .assign target value =>
    let arg := value.visit (next + 1)
    (.name next target :: (arg.ops ++
      [.assign arg.next next (arg.values.headD 0)]), arg.next + 1)
  | .expr value => ((value.visit next).ops, (value.visit next).next)
  | .ret none => ([.other next .ret []], next + 1)
  | .ret (some value) =>
    let args := (value.visit next).andThen .ret
    (args.ops, args.next)
  | .functionDef name params body =>
    ([.func name (List.range params.length) (visitParams 0 params.length params ++
      visitStmts (3 * params.length) body)], next)

def visitStmts (next : ℕ) : List Stmt → List Op
  | [] => []
  | stmt :: stmts => (stmt.visit next).1 ++ visitStmts (stmt.visit next).2 stmts

end

/-- `visit_FunctionDef`: the arguments are assigned to the parameters, in front of the body. -/
def visitFunction (params : List String) (body : List Stmt) : List Op :=
  visitParams 0 params.length params ++ visitStmts (3 * params.length) body

/-! ## `VarAllocVisitor` -/

/-- The state of the visitor of a function. -/
structure VarAllocVisitor where
  /-- the result of the assignment of a variable -/
  vars : String → Option Handle
  /-- what the results of replaced ops are replaced by -/
  replaced : Handle → Handle
  /-- the variables of the ops that are not replaced -/
  names : Handle → Option String

def VarAllocVisitor.init : VarAllocVisitor := ⟨fun _ ↦ none, id, fun _ ↦ none⟩

mutual

/-- What is left of an op. An assignment whose reference is not the result of a `py.name` is an
error: such an op has no `var`. -/
def VarAllocVisitor.visitOp (self : VarAllocVisitor) : Op → Option (VarAllocVisitor × Option Op)
  | .name ref var =>
    match self.vars var with
    | some new => some ({ self with replaced := Function.update self.replaced ref new }, none)
    | none =>
      some ({ self with names := Function.update self.names ref (some var) }, some (.name ref var))
  | .assign new ref arg =>
    match self.names (self.replaced ref) with
    | some var =>
      some ({ self with vars := Function.update self.vars var (some new) },
        some (.assign new (self.replaced ref) arg))
    | none => none
  | .load res ref => some (self, some (.load res (self.replaced ref)))
  | .other res kind operands => some (self, some (.other res kind operands))
  | .func name args body => do
    let body ← init.visitOps body
    return (self, some (.func name args body))

def VarAllocVisitor.visitOps (self : VarAllocVisitor) : List Op → Option (List Op)
  | [] => some []
  | op :: ops => do
    let (self, op) ← self.visitOp op
    let ops ← self.visitOps ops
    return op.toList ++ ops

end

/-! ## Patterns -/

/-- `replace`, for the uses in an op. A nested function does not use values from above. -/
def Op.replaceUses (res arg : Value) : Op → Op
  | .assign new ref arg' => .assign new ref (if arg' = res then arg else arg')
  | .other res' kind operands =>
    .other res' kind (operands.map fun operand ↦ if operand = res then arg else operand)
  | op => op

/-- The uses of an object in an op. -/
def Op.uses (val : Value) : Op → ℕ
  | .assign _ _ arg => if arg = val then 1 else 0
  | .other _ _ operands => operands.count val
  | _ => 0

/-- The uses of a handle in an op. -/
def Op.usesHandle (handle : Handle) : Op → Bool
  | .assign _ ref _ => ref == handle
  | .load _ ref => ref == handle
  | _ => false

def hasOneUse (val : Value) (ops : List Op) : Bool := (ops.map (Op.uses val)).sum == 1

def useEmpty (handle : Handle) (ops : List Op) : Bool := !ops.any (Op.usesHandle handle)

/-- One application of a pattern, to any op of a function or of a nested one. -/
inductive PatternStep : List Op → List Op → Prop where
  /-- A load of the result of an assignment is replaced by what is assigned. -/
  | elideLoad {before after : List Op} {res : Value} {new ref : Handle} {arg : Value} :
    .assign new ref arg ∈ before →
    PatternStep (before ++ .load res new :: after) (before ++ after.map (Op.replaceUses res arg))
  /-- An assignment without uses is erased, unless it is the only use of what is assigned. -/
  | elideAssign {before after : List Op} {new ref : Handle} {arg : Value} :
    useEmpty new (before ++ after) = true →
    hasOneUse arg (before ++ .assign new ref arg :: after) = false →
    PatternStep (before ++ .assign new ref arg :: after) (before ++ after)
  | func {before after body body' : List Op} {name : String} {args : List Value} :
    PatternStep body body' →
    PatternStep (before ++ .func name args body :: after) (before ++ .func name args body' :: after)

end DeclarativeMlir.Oec
