import DeclarativeMlir.Lua.Generator

/-!
# Variable allocation

`AllocVisitor` walks the generated operations with a stack of scopes and replaces every
`lua.get_or_alloc` by a value of the variable that its name refers to. The regions of an operation
are flattened to a worklist, in which a scope opens and closes at markers.
-/

namespace DeclarativeMlir.Lua

/-- A variable in scope: the value that stands for it, and the alloc or block argument it lives in.
The result of an assignment stands for the variable of its target. -/
structure Reference where
  value : Value OpId
  cell : Value OpId

def Reference.ofCell (cell : Value OpId) : Reference := ⟨cell, cell⟩

/-- The scopes, innermost first. -/
abbrev ScopedMap := List (String → Option Reference)

namespace ScopedMap

def lookup : ScopedMap → String → Option Reference
  | [], _ => none
  | scope :: scopes, x => scope x <|> lookup scopes x

def contains (scopes : ScopedMap) (x : String) : Bool := (scopes.lookup x).isSome

def setLocal (x : String) (ref : Reference) : ScopedMap → ScopedMap
  | [] => []
  | scope :: scopes => Function.update scope x (some ref) :: scopes

def setGlobal (x : String) (ref : Reference) : ScopedMap → ScopedMap
  | [] => []
  | [scope] => [Function.update scope x (some ref)]
  | scope :: scopes => scope :: setGlobal x ref scopes

def pushScope (scopes : ScopedMap) : ScopedMap := (fun _ ↦ none) :: scopes

def popScope (scopes : ScopedMap) : ScopedMap := scopes.tail

end ScopedMap

/-! ## The worklist -/

inductive Work where
  | pushScope
  | popScope
  /-- an op with the op whose region it is in -/
  | op (parentOp : OpId) (op : Op OpId)

/-- Ops that open their scope themselves, so that it holds the arguments of their region. -/
def bindsArguments : OpName → Bool
  | .numeric_for | .generic_for | .function_def => true
  | _ => false

mutual

def checkWork (parentOp : OpId) : Op OpId → List Work
  | .mk id name attr operands numResults successors regions =>
    if bindsArguments name then
      .pushScope :: .op parentOp (.mk id name attr operands numResults successors regions) ::
        addFirstRegion id regions ++ [.popScope]
    else
      .op parentOp (.mk id name attr operands numResults successors regions) ::
        addRegions id regions

def addFirstRegion (parentOp : OpId) : List (Region OpId) → List Work
  | [] => []
  | region :: _ => addRegion parentOp region

def addRegions (parentOp : OpId) : List (Region OpId) → List Work
  | [] => []
  | region :: regions =>
    .pushScope :: addRegion parentOp region ++ .popScope :: addRegions parentOp regions

def addRegion (parentOp : OpId) : Region OpId → List Work
  | [] => []
  | .mk _ _ ops :: _ => addOps parentOp ops

def addOps (parentOp : OpId) : List (Op OpId) → List Work
  | [] => []
  | op :: ops => checkWork parentOp op ++ addOps parentOp ops

end

/-! ## The visitor -/

/-- The `lua.alloc` created at the place of `op`, or for the global that `op` is the first to
use. -/
def OpId.alloc (op : OpId) : OpId := .new op 4

structure AllocVisitor where
  scope : ScopedMap
  /-- what the uses of a value have been replaced by -/
  replaced : Value OpId → Value OpId
  /-- the variable and the parent op of each `lua.alloc` -/
  allocs : OpId → Option (String × OpId)
  /-- the parent op of each op visited so far -/
  parentOp : OpId → Option OpId
  /-- the cell that each `lua.get_or_alloc` has been resolved to -/
  resolved : List (OpId × String × Value OpId)

namespace AllocVisitor

def init : AllocVisitor := ⟨[fun _ ↦ none], id, fun _ ↦ none, fun _ ↦ none, []⟩

/-- Create a `lua.alloc` at the place of `op` in `parent`. -/
def createAlloc (v : AllocVisitor) (op : OpId) (x : String) (parent : OpId) : AllocVisitor :=
  { v with allocs := Function.update v.allocs op.alloc (some (x, parent)) }

def setLocal (v : AllocVisitor) (x : String) (ref : Reference) : AllocVisitor :=
  { v with scope := v.scope.setLocal x ref }

def setGlobal (v : AllocVisitor) (x : String) (ref : Reference) : AllocVisitor :=
  { v with scope := v.scope.setGlobal x ref }

/-- Replace the result of `op`. -/
def replace (v : AllocVisitor) (op : OpId) (value : Value OpId) : AllocVisitor :=
  { v with replaced := Function.update v.replaced (.res op 0) value }

section

variable (v : AllocVisitor) (op parent : OpId) (x : String) (ref : Reference) (value : Value OpId)

@[simp]
theorem allocs_createAlloc : (v.createAlloc op x parent).allocs =
    Function.update v.allocs op.alloc (some (x, parent)) := rfl

@[simp]
theorem allocs_setLocal : (v.setLocal x ref).allocs = v.allocs := rfl

@[simp]
theorem parentOp_setLocal : (v.setLocal x ref).parentOp = v.parentOp := rfl

@[simp]
theorem replaced_setLocal : (v.setLocal x ref).replaced = v.replaced := rfl

@[simp]
theorem replaced_replace : (v.replace op value).replaced =
    Function.update v.replaced (.res op 0) value := rfl

end

/-- The alloc of a global is created at the start of `main`. -/
def ensureAlloc (main : OpId) (v : AllocVisitor) (op : OpId) (x : String) : AllocVisitor :=
  if v.scope.contains x then v
  else (v.createAlloc op x main).setGlobal x (.ofCell (.res op.alloc 0))

def visitGetOrAlloc (main : OpId) (v : AllocVisitor) (op : OpId) (x : String) : AllocVisitor :=
  let v := v.ensureAlloc main op x
  match v.scope.lookup x with
  | some ref => { v.replace op ref.value with resolved := v.resolved ++ [(op, x, ref.cell)] }
  | none => v

def visitAllocLocal (v : AllocVisitor) (parent op : OpId) (x : String) : AllocVisitor :=
  ((v.createAlloc op x parent).setLocal x (.ofCell (.res op.alloc 0))).replace op (.res op.alloc 0)

/-- `visitNumericFor`, `visitGenericFor` and `visitFunctionDef`: the arguments of the region are
its first local variables. -/
def visitArguments (v : AllocVisitor) (op : OpId) (params : List String) : AllocVisitor :=
  params.zipIdx.foldl (fun v (x, i) ↦ v.setLocal x (.ofCell (.arg (.entry op 0) i))) v

def definingOp : Value OpId → Option OpId
  | .res op _ => some op
  | .arg _ _ => none

/-- The variable of the target if later uses of it are to refer to the assignment. -/
def redirects (uses : List (Value OpId)) (v : AllocVisitor) (tgt val : Value OpId) :
    Option String := do
  let alloc ← definingOp tgt
  let (x, parent) ← v.allocs alloc
  let op ← definingOp val
  if (uses.map v.replaced).count val = 1 ∧ v.parentOp op = some parent then some x else none

def visitAssign (uses : List (Value OpId)) (v : AllocVisitor) (op : OpId) (tgt val : Value OpId) :
    AllocVisitor :=
  match v.redirects uses tgt val with
  | some x => v.setLocal x ⟨.res op 0, tgt⟩
  | none => v

theorem redirects_eq_some {uses : List (Value OpId)} {v : AllocVisitor} {tgt val : Value OpId}
    {x : String} (h : v.redirects uses tgt val = some x) :
    ∃ op i parent, tgt = .res op i ∧ v.allocs op = some (x, parent) := by
  cases tgt with
  | arg block i => simp [redirects, definingOp] at h
  | res op i =>
    cases halloc : v.allocs op with
    | none => simp [redirects, definingOp, halloc] at h
    | some q =>
      obtain ⟨y, parent⟩ := q
      cases val with
      | arg block j => simp [redirects, definingOp, halloc] at h
      | res op' j =>
        simp only [redirects, definingOp, halloc, Option.bind_eq_bind, Option.bind_some] at h
        split at h
        · exact ⟨op, i, parent, rfl, by rw [halloc, Option.some.inj h]⟩
        · contradiction

theorem redirects_of_alloc {uses : List (Value OpId)} {v : AllocVisitor} {op op' parent : OpId}
    {i j : ℕ} {x : String} (halloc : v.allocs op = some (x, parent))
    (hone : (uses.map v.replaced).count (.res op' j) = 1)
    (hparent : v.parentOp op' = some parent) :
    v.redirects uses (.res op i) (.res op' j) = some x := by
  simp [redirects, definingOp, halloc, hone, hparent]

section

variable (uses : List (Value OpId)) (v : AllocVisitor) (op : OpId) (tgt val : Value OpId)

@[simp]
theorem allocs_visitAssign : (v.visitAssign uses op tgt val).allocs = v.allocs := by
  unfold visitAssign
  split <;> rfl

@[simp]
theorem replaced_visitAssign : (v.visitAssign uses op tgt val).replaced = v.replaced := by
  unfold visitAssign
  split <;> rfl

@[simp]
theorem parentOp_visitAssign : (v.visitAssign uses op tgt val).parentOp = v.parentOp := by
  unfold visitAssign
  split <;> rfl

end

def visitOp (uses : List (Value OpId)) (main : OpId) (v : AllocVisitor) (parent : OpId)
    (op : Op OpId) : AllocVisitor :=
  match op.name, op.attr, op.operands with
  | .get_or_alloc, .str x, _ => v.visitGetOrAlloc main op.id x
  | .alloc_local, .str x, _ => v.visitAllocLocal parent op.id x
  | .numeric_for, .str x, _ => v.visitArguments op.id [x]
  | .generic_for, .strs params, _ => v.visitArguments op.id params
  | .function_def, .strs params, _ => v.visitArguments op.id params
  | .assign, _, [tgt, val] => v.visitAssign uses op.id (v.replaced tgt) (v.replaced val)
  | _, _, _ => v

/-- One item of the worklist; `uses` are the operands in `main` as the generator emitted them. -/
def visit (uses : List (Value OpId)) (main : OpId) (v : AllocVisitor) : Work → AllocVisitor
  | .pushScope => { v with scope := v.scope.pushScope }
  | .popScope => { v with scope := v.scope.popScope }
  | .op parent op =>
    visitOp uses main { v with parentOp := Function.update v.parentOp op.id (some parent) } parent op

def visitAll (main : OpId) (body : List (Op OpId)) : AllocVisitor :=
  (addOps main body).foldl (visit (uses body) main) init

end AllocVisitor

end DeclarativeMlir.Lua
