import DeclarativeMlir.Lua.IR
import DeclarativeMlir.Library.LocalExpansion

/-!
# Lowering of structured control flow

The five patterns of `cfExpand`. Each replaces one op: ops are created in front of it, its block
may be split behind it, and new blocks go between the two halves. An `Expansion` collects these
parts; a pattern that raises, or whose op is malformed, has none.
-/

namespace DeclarativeMlir.Lua

variable {ι : Type} [DecidableEq ι] [Naming ι]

/-- `getBlock(0)` -/
def getBlock0 : Region ι → List (Op ι)
  | [] => []
  | block :: _ => block.ops

/-- The clones of `ops` and of everything nested in them. -/
def cloneIds (ops : List (Op ι)) (op : ι) : ι :=
  if op ∈ defsOps ops then Naming.clone op else op

/-- The operand of a clone: the mapping `bvm` knows the values it was given and the results of the
ops cloned before. -/
def lookupOrDefault (bvm : List (Value ι × Value ι)) (ops : List (Op ι)) (value : Value ι) :
    Value ι :=
  (bvm.lookup value).getD (value.map (cloneIds ops))

def copyInto (termCls : Option OpName) (bvm : List (Value ι × Value ι)) (oldBlk : List (Op ι)) :
    List (Op ι) :=
  let copied := oldBlk.filter fun op ↦ some op.name != termCls
  substOps (cloneIds copied) (lookupOrDefault bvm copied) copied

/-- What a pattern puts in the place of an op. -/
structure Expansion (ι : Type) where
  /-- the ops created in front of the op, at the end of `before` where the block is split -/
  inline : List (Op ι)
  /-- the blocks created where the block is split, and the block with the ops behind the op -/
  split : Option (Region ι × BlockId ι)

/-- The blocks in place of the block `before ++ [op] ++ rest`. -/
def Expansion.splice (expansion : Expansion ι) (label : BlockId ι) (numArgs : ℕ)
    (before rest : List (Op ι)) : Region ι :=
  match expansion.split with
  | none => [.mk label numArgs (before ++ expansion.inline ++ rest)]
  | some (blocks, after) =>
    .mk label numArgs (before ++ expansion.inline) :: blocks ++ [.mk after 0 rest]

def BranchOp (id : ι) (dest : BlockId ι) : Op ι := .mk id .br .none [] 0 [dest] []

def CondBranchOp (id : ι) (cond : Value ι) (trueDest falseDest : BlockId ι) : Op ι :=
  .mk id .cond_br .none [cond] 0 [trueDest, falseDest] []

/-- An op with `numResults` results and no attribute, successor or region. -/
def create (id : ι) (name : OpName) (operands : List (Value ι)) (numResults : ℕ) : Op ι :=
  .mk id name .none operands numResults [] []

/-- `makeConcat` -/
def makeConcat (id : ι) (vals tail : List (Value ι)) : Op ι :=
  .mk id .concat (.segments vals.length tail.length) (vals ++ tail) 1 [] []

/-- The terminator `lua.end` becomes a branch named `branch`; any other than `lua.ret` raises. -/
def handleCondTerm (after : BlockId ι) (branch : ι) (ops : List (Op ι)) :
    Option (List (Op ι)) :=
  ops.getLast?.bind fun term ↦
    match term.name with
    | .end => some (ops.dropLast ++ [BranchOp branch after])
    | .ret => some ops
    | _ => none

def lowerCondIf : Op ι → Option (Expansion ι)
  | .mk id _ _ [cond] _ _ [first, second] => do
    let boolVal := create (Naming.new id 0) .convert_bool_like [cond] 1
    let trueDest := BlockId.new id 0
    let falseDest := BlockId.new id 1
    let after := BlockId.new id 2
    let firstOps ← handleCondTerm after (Naming.new id 2) (copyInto none [] (getBlock0 first))
    let secondOps ← handleCondTerm after (Naming.new id 3) (copyInto none [] (getBlock0 second))
    some {
      inline := [boolVal,
        CondBranchOp (Naming.new id 1) (.res (Naming.new id 0) 0) trueDest falseDest]
      split := some ([.mk trueDest 0 firstOps, .mk falseDest 0 secondOps], after) }
  | _ => none

/-- The terminator `condTerm`, an op whose first operand is the condition, becomes a conditional
branch. -/
def lowerCond (convert branch : ι) (trueDest falseDest : BlockId ι) (ops : List (Op ι)) :
    Option (List (Op ι)) :=
  ops.getLast?.bind fun condTerm ↦ condTerm.operands.head?.map fun cond ↦
    ops.dropLast ++ [create convert .convert_bool_like [cond] 1,
      CondBranchOp branch (.res convert 0) trueDest falseDest]

def lowerLoopWhile : Op ι → Option (Expansion ι)
  | .mk id _ _ _ _ _ [eval, region] => do
    let cond := BlockId.new id 0
    let body := BlockId.new id 1
    let after := BlockId.new id 2
    let evalOps ← lowerCond (Naming.new id 1) (Naming.new id 2) body after
      (copyInto none [] (getBlock0 eval))
    some {
      inline := [BranchOp (Naming.new id 0) cond]
      split := some ([.mk cond 0 evalOps,
        .mk body 0 ((copyInto none [] (getBlock0 region)).dropLast ++
          [BranchOp (Naming.new id 3) cond])], after) }
  | _ => none

/-- The `lua.until` of a `lua.repeat` is the root of the pattern; its parent is replaced. The two
calls of `copyInto` have a mapping each. -/
def lowerRepeatUntil : Op ι → Option (Expansion ι)
  | .mk id _ _ _ _ _ [region] => do
    let until_ ← (region.flatMap Blk.ops).find? fun op ↦ op.name == .until
    let eval ← until_.regions.head?
    let body := BlockId.new id 0
    let after := BlockId.new id 1
    let bodyOps ← lowerCond (Naming.new id 1) (Naming.new id 2) after body
      (copyInto (some .until) [] (getBlock0 region) ++ copyInto none [] (getBlock0 eval))
    some {
      inline := [BranchOp (Naming.new id 0) body]
      split := some ([.mk body 0 bodyOps], after) }
  | _ => none

/-- `insertBefore(block.getTerminator())` -/
def insertBeforeTerminator (ops created : List (Op ι)) : List (Op ι) :=
  ops.dropLast ++ created ++ ops.getLast?.toList

def lowerNumericFor : Op ι → Option (Expansion ι)
  | .mk id _ _ [lower, upper, step] _ _ [region] =>
    let stepNum := Value.res (Naming.new id 0) 0
    let lowerNum := Value.res (Naming.new id 1) 0
    let i := Value.res (Naming.new id 2) 0
    let loop : ι := Naming.new id 3
    let body := copyInto none [(.arg (.entry id 0) 0, i)] (getBlock0 region)
    some {
      inline := [
        create (Naming.new id 0) .get_int_val [step] 1,
        create (Naming.new id 1) .get_int_val [lower] 1,
        create (Naming.new id 2) .wrap_int [lowerNum] 1,
        .mk loop .loop_while .none [] 0 [] [
          [.mk (.entry loop 0) 0 [
            create (Naming.new id 4) .le [i, upper] 1,
            create (Naming.new id 5) .cond [.res (Naming.new id 4) 0] 0]],
          [.mk (.entry loop 1) 0 (insertBeforeTerminator body [
            create (Naming.new id 6) .get_int_val [i] 1,
            create (Naming.new id 7) .add_i [.res (Naming.new id 6) 0, stepNum] 1,
            create (Naming.new id 8) .wrap_int [.res (Naming.new id 7) 0] 1,
            create (Naming.new id 9) .copy [i, .res (Naming.new id 8) 0] 0])]]]
      split := none }
  | _ => none

def lowerGenericFor : Op ι → Option (Expansion ι)
  | .mk id _ (.strs (param :: params)) [f, s, var] _ _ [region] =>
    let numParams := (param :: params).length
    let loop : ι := Naming.new id 4
    let bvm := (List.range numParams).map fun i ↦
      (Value.arg (.entry id 0) i, Value.res (Naming.new id 3) i)
    let body := copyInto none bvm (getBlock0 region)
    some {
      inline := [
        makeConcat (Naming.new id 0) [s, var] [],
        create (Naming.new id 1) .call [f, .res (Naming.new id 0) 0] 1,
        create (Naming.new id 2) .nil [] 1,
        create (Naming.new id 3) .unpack [.res (Naming.new id 1) 0] numParams,
        .mk loop .loop_while .none [] 0 [] [
          [.mk (.entry loop 0) 0 [
            create (Naming.new id 5) .copy [var, .res (Naming.new id 3) 0] 0,
            create (Naming.new id 6) .ne [var, .res (Naming.new id 2) 0] 1,
            create (Naming.new id 7) .cond [.res (Naming.new id 6) 0] 0]],
          [.mk (.entry loop 1) 0 (insertBeforeTerminator body ([
            makeConcat (Naming.new id 8) [s, var] [],
            create (Naming.new id 9) .call [f, .res (Naming.new id 8) 0] 1,
            create (Naming.new id 10) .unpack [.res (Naming.new id 9) 0] numParams] ++
            (List.range numParams).map fun i ↦
              create (Naming.new id (11 + i)) .copy
                [.res (Naming.new id 3) i, .res (Naming.new id 10) i] 0))]]]
      split := none }
  | _ => none

/-- The patterns of `cfExpand`, by the op they replace. -/
def lower (op : Op ι) : Option (Expansion ι) :=
  match op.name with
  | .numeric_for => lowerNumericFor op
  | .generic_for => lowerGenericFor op
  | .loop_while => lowerLoopWhile op
  | .repeat => lowerRepeatUntil op
  | .cond_if => lowerCondIf op
  | _ => none

def OpName.IsControl (name : OpName) : Prop :=
  name ∈ [.numeric_for, .generic_for, .loop_while, .repeat, .cond_if]

instance (name : OpName) : Decidable name.IsControl :=
  inferInstanceAs (Decidable (name ∈ _))

/-- A pattern is applied to an op of one of the blocks. -/
inductive LowerStep : Region ι → Region ι → Prop where
  | mk (blocks : Region ι) (label : BlockId ι) (numArgs : ℕ) (before : List (Op ι)) {op : Op ι}
      {expansion : Expansion ι} (rest : List (Op ι)) (blocks' : Region ι)
      (hlower : lower op = some expansion) :
      LowerStep (blocks ++ .mk label numArgs (before ++ op :: rest) :: blocks')
        (blocks ++ expansion.splice label numArgs before rest ++ blocks')

/-- No op of the blocks is left for a pattern. -/
def Lowered (region : Region ι) : Prop :=
  ∀ block ∈ region, ∀ op ∈ block.ops, ¬ op.name.IsControl

/-! ## Lowering as expansion of lines -/

/-- The text of a region: a line for every block label and every op. -/
inductive Line (ι : Type) where
  | label (block : BlockId ι) (numArgs : ℕ)
  | op (op : Op ι)

def Blk.lines : Blk ι → List (Line ι)
  | .mk id numArgs ops => .label id numArgs :: ops.map .op

def lines (region : Region ι) : List (Line ι) := region.flatMap Blk.lines

def Expansion.lines (expansion : Expansion ι) : List (Line ι) :=
  expansion.inline.map .op ++
    match expansion.split with
    | none => []
    | some (blocks, after) => Lua.lines blocks ++ [.label after 0]

def expandLine : Line ι → Option (List (Line ι))
  | .label _ _ => none
  | .op op => (lower op).map Expansion.lines

omit [DecidableEq ι] [Naming ι] in
theorem lines_splice (expansion : Expansion ι) (label : BlockId ι) (numArgs : ℕ)
    (before rest : List (Op ι)) :
    lines (expansion.splice label numArgs before rest) =
      .label label numArgs :: before.map .op ++ expansion.lines ++ rest.map .op := by
  unfold Expansion.splice Expansion.lines
  rcases expansion.split with _ | ⟨blocks, after⟩ <;> simp [lines, Blk.lines]

/-- Applying a pattern expands one line of the text. -/
theorem LowerStep.lines {region region' : Region ι} (hstep : LowerStep region region') :
    LocalExpansion.Step expandLine (lines region) (lines region') := by
  obtain ⟨blocks, label, numArgs, before, rest, blocks', hlower⟩ := hstep
  rename_i op expansion
  have hline : expandLine (.op op) = some expansion.lines := by simp [expandLine, hlower]
  have hexpand := LocalExpansion.Step.mk
    (Lua.lines blocks ++ .label label numArgs :: before.map .op)
    (rest.map .op ++ Lua.lines blocks') hline
  have hleft : Lua.lines (blocks ++ .mk label numArgs (before ++ op :: rest) :: blocks') =
      Lua.lines blocks ++ .label label numArgs :: before.map .op ++
        .op op :: (rest.map .op ++ Lua.lines blocks') := by
    simp [Lua.lines, Blk.lines]
  have hright : Lua.lines (blocks ++ expansion.splice label numArgs before rest ++ blocks') =
      Lua.lines blocks ++ .label label numArgs :: before.map .op ++
        (expansion.lines ++ (rest.map .op ++ Lua.lines blocks')) := by
    have hsplice := lines_splice expansion label numArgs before rest
    simp only [Lua.lines, List.flatMap_append] at hsplice ⊢
    rw [hsplice]
    simp
  rw [hleft, hright]
  exact hexpand

end DeclarativeMlir.Lua
