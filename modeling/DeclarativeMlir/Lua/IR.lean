import Mathlib.Algebra.Order.Ring.Int
import Mathlib.Data.List.Basic
import Mathlib.Data.Finset.Basic

/-!
# The intermediate representation of the Lua compiler

Operations own regions, regions own blocks, blocks own operations. The representation is
generic in the type of operation identities. A value is the result of an operation or the
argument of a block, as in the source, so renaming the identities renames the values.

`Naming` supplies identities for the operations a rewrite creates. MLIR identifies operations by
address; here an operation created while rewriting `op` is named after `op`, and a clone after
its original, which is erased once its copy exists.
-/

namespace DeclarativeMlir.Lua

/-- The operations of the `lua`, `luaopt`, `luac` and `std` dialects that the passes mention. -/
inductive OpName where
  | concat | unpack | alloc_local | get_or_alloc | alloc | assign | copy | call | builtin
  | nil | boolean | number | table | table_get | table_set | get_string | binary | unary
  | numeric_for | generic_for | function_def | function_def_capture
  | cond_if | loop_while | repeat | until | end | ret | cond
  | make_capture | get_captures | new_capture | add_capture | get_capture
  | const_number | unpackUnsafe  | pack_func
  | get_int_val | wrap_int | le | ne | convert_bool_like | make_fcn
  | add_i | constant | br | cond_br
  deriving DecidableEq, Repr

inductive Attr where
  | none
  | str (value : String)
  | int (value : ℤ)
  | strs (values : List String)
  /-- `operand_segment_sizes` of `lua.concat` and `lua.ret` -/
  | segments (vals tail : ℕ)
  deriving DecidableEq, Repr

inductive BlockId (ι : Type) where
  /-- `getBlock(0)` of a region of `op` -/
  | entry (op : ι) (region : ℕ)
  /-- a block created while rewriting `op` -/
  | new (op : ι) (k : ℕ)
  deriving DecidableEq, Repr

inductive Value (ι : Type) where
  | res (op : ι) (idx : ℕ)
  | arg (block : BlockId ι) (idx : ℕ)
  deriving DecidableEq, Repr

mutual

inductive Op (ι : Type) where
  | mk (id : ι) (name : OpName) (attr : Attr) (operands : List (Value ι)) (numResults : ℕ)
      (successors : List (BlockId ι)) (regions : List (List (Blk ι)))

inductive Blk (ι : Type) where
  | mk (id : BlockId ι) (numArgs : ℕ) (ops : List (Op ι))

end

abbrev Region (ι : Type) := List (Blk ι)

/-- The identities of created and cloned operations. -/
class Naming (ι : Type) where
  clone : ι → ι
  new : ι → ℕ → ι

/-- Identities of the compiler: operations of the generator, clones, and operations created by
a rewrite. -/
inductive OpId where
  | src (n : ℕ)
  | clone (op : OpId)
  | new (op : OpId) (k : ℕ)
  deriving DecidableEq, Repr

instance : Naming OpId := ⟨.clone, .new⟩

variable {ι κ : Type}

namespace BlockId

def owner : BlockId ι → ι
  | .entry op _ => op
  | .new op _ => op

def map (f : ι → κ) : BlockId ι → BlockId κ
  | .entry op region => .entry (f op) region
  | .new op k => .new (f op) k

@[simp]
theorem owner_map (f : ι → κ) (block : BlockId ι) : (block.map f).owner = f block.owner := by
  cases block <;> rfl

theorem map_injective {f : ι → κ} (hf : Function.Injective f) :
    Function.Injective (BlockId.map f) := by
  intro a b h
  cases a <;> cases b <;> simp_all [map, hf.eq_iff]

end BlockId

namespace Value

def owner : Value ι → ι
  | .res op _ => op
  | .arg block _ => block.owner

def map (f : ι → κ) : Value ι → Value κ
  | .res op idx => .res (f op) idx
  | .arg block idx => .arg (block.map f) idx

@[simp]
theorem owner_map (f : ι → κ) (value : Value ι) : (value.map f).owner = f value.owner := by
  cases value <;> simp [map, owner]

theorem map_injective {f : ι → κ} (hf : Function.Injective f) :
    Function.Injective (Value.map f) := by
  intro a b h
  cases a <;> cases b <;> simp_all [map, hf.eq_iff, (BlockId.map_injective hf).eq_iff]

end Value

namespace Blk

def id : Blk ι → BlockId ι
  | .mk id _ _ => id

def ops : Blk ι → List (Op ι)
  | .mk _ _ ops => ops

end Blk

namespace Op

def id : Op ι → ι
  | .mk id _ _ _ _ _ _ => id

def name : Op ι → OpName
  | .mk _ name _ _ _ _ _ => name

def attr : Op ι → Attr
  | .mk _ _ attr _ _ _ _ => attr

def operands : Op ι → List (Value ι)
  | .mk _ _ _ operands _ _ _ => operands

def numResults : Op ι → ℕ
  | .mk _ _ _ _ numResults _ _ => numResults

def successors : Op ι → List (BlockId ι)
  | .mk _ _ _ _ _ successors _ => successors

def regions : Op ι → List (Region ι)
  | .mk _ _ _ _ _ _ regions => regions

def results (op : Op ι) : List (Value ι) := (List.range op.numResults).map (.res op.id)

section

variable (op : ι) (opName : OpName) (opAttr : Attr) (values : List (Value ι)) (n : ℕ)
  (blocks : List (BlockId ι)) (nested : List (Region ι))

@[simp]
theorem id_mk : (mk op opName opAttr values n blocks nested).id = op := rfl

@[simp]
theorem name_mk : (mk op opName opAttr values n blocks nested).name = opName := rfl

@[simp]
theorem operands_mk : (mk op opName opAttr values n blocks nested).operands = values := rfl

@[simp]
theorem regions_mk : (mk op opName opAttr values n blocks nested).regions = nested := rfl

end

end Op

/-! ## Substitution of identities and operands -/

mutual

/-- Rename identities and block labels by `f` and substitute the operands by `v`. -/
def Op.subst (f : ι → κ) (v : Value ι → Value κ) : Op ι → Op κ
  | .mk id name attr operands numResults successors regions =>
    .mk (f id) name attr (operands.map v) numResults (successors.map (BlockId.map f))
      (substRegions f v regions)

def substRegions (f : ι → κ) (v : Value ι → Value κ) : List (Region ι) → List (Region κ)
  | [] => []
  | region :: regions => substBlocks f v region :: substRegions f v regions

def substBlocks (f : ι → κ) (v : Value ι → Value κ) : Region ι → Region κ
  | [] => []
  | block :: blocks => block.subst f v :: substBlocks f v blocks

def Blk.subst (f : ι → κ) (v : Value ι → Value κ) : Blk ι → Blk κ
  | .mk id numArgs ops => .mk (id.map f) numArgs (substOps f v ops)

def substOps (f : ι → κ) (v : Value ι → Value κ) : List (Op ι) → List (Op κ)
  | [] => []
  | op :: ops => op.subst f v :: substOps f v ops

end

/-- Renaming the identities alone. -/
def Op.map (f : ι → κ) (op : Op ι) : Op κ := op.subst f (Value.map f)

def mapOps (f : ι → κ) (ops : List (Op ι)) : List (Op κ) := substOps f (Value.map f) ops

def mapBlocks (f : ι → κ) (blocks : Region ι) : Region κ := substBlocks f (Value.map f) blocks

theorem substOps_eq_map (f : ι → κ) (v : Value ι → Value κ) (ops : List (Op ι)) :
    substOps f v ops = ops.map (Op.subst f v) := by
  induction ops with
  | nil => rfl
  | cons op ops ih => simp [substOps, ih]

theorem substBlocks_eq_map (f : ι → κ) (v : Value ι → Value κ) (blocks : Region ι) :
    substBlocks f v blocks = blocks.map (Blk.subst f v) := by
  induction blocks with
  | nil => rfl
  | cons block blocks ih => simp [substBlocks, ih]

theorem substRegions_eq_map (f : ι → κ) (v : Value ι → Value κ) (regions : List (Region ι)) :
    substRegions f v regions = regions.map (substBlocks f v) := by
  induction regions with
  | nil => rfl
  | cons region regions ih => simp [substRegions, ih]

theorem BlockId.map_map {μ : Type} (g : κ → μ) (f : ι → κ) (block : BlockId ι) :
    (block.map f).map g = block.map (g ∘ f) := by
  cases block <;> rfl

theorem Value.map_map {μ : Type} (g : κ → μ) (f : ι → κ) (value : Value ι) :
    (value.map f).map g = value.map (g ∘ f) := by
  cases value <;> simp [Value.map, BlockId.map_map]

mutual

theorem Op.subst_subst {μ : Type} (g : κ → μ) (w : Value κ → Value μ) (f : ι → κ)
    (v : Value ι → Value κ) : (op : Op ι) → (op.subst f v).subst g w = op.subst (g ∘ f) (w ∘ v)
  | .mk id name attr operands numResults successors regions => by
    simp only [Op.subst, List.map_map, substRegions_substRegions, Function.comp_apply,
      Op.mk.injEq, true_and, and_true]
    exact List.map_congr_left fun block _ ↦ block.map_map g f

theorem substRegions_substRegions {μ : Type} (g : κ → μ) (w : Value κ → Value μ) (f : ι → κ)
    (v : Value ι → Value κ) : (regions : List (Region ι)) →
      substRegions g w (substRegions f v regions) = substRegions (g ∘ f) (w ∘ v) regions
  | [] => rfl
  | region :: regions => by
    simp only [substRegions, substBlocks_substBlocks, substRegions_substRegions]

theorem substBlocks_substBlocks {μ : Type} (g : κ → μ) (w : Value κ → Value μ) (f : ι → κ)
    (v : Value ι → Value κ) : (blocks : Region ι) →
      substBlocks g w (substBlocks f v blocks) = substBlocks (g ∘ f) (w ∘ v) blocks
  | [] => rfl
  | block :: blocks => by
    simp only [substBlocks, Blk.subst_subst, substBlocks_substBlocks]

theorem Blk.subst_subst {μ : Type} (g : κ → μ) (w : Value κ → Value μ) (f : ι → κ)
    (v : Value ι → Value κ) : (block : Blk ι) →
      (block.subst f v).subst g w = block.subst (g ∘ f) (w ∘ v)
  | .mk id numArgs ops => by
    simp only [Blk.subst, substOps_substOps, BlockId.map_map]

theorem substOps_substOps {μ : Type} (g : κ → μ) (w : Value κ → Value μ) (f : ι → κ)
    (v : Value ι → Value κ) : (ops : List (Op ι)) →
      substOps g w (substOps f v ops) = substOps (g ∘ f) (w ∘ v) ops
  | [] => rfl
  | op :: ops => by
    simp only [substOps, Op.subst_subst, substOps_substOps]

end

theorem BlockId.map_id : BlockId.map (fun i : ι ↦ i) = fun block ↦ block :=
  funext fun block ↦ by cases block <;> rfl

theorem Value.map_id : Value.map (fun i : ι ↦ i) = fun value ↦ value :=
  funext fun value ↦ by rcases value with _ | ⟨_ | _, _⟩ <;> rfl

mutual

theorem Op.subst_id : (op : Op ι) → op.subst (fun i ↦ i) (Value.map fun i ↦ i) = op
  | .mk id name attr operands numResults successors regions => by
    simp only [Op.subst, substRegions_id]
    simp only [Value.map_id, BlockId.map_id, List.map_id']

theorem substRegions_id : (regions : List (Region ι)) →
    substRegions (fun i ↦ i) (Value.map fun i ↦ i) regions = regions
  | [] => rfl
  | region :: regions => by simp only [substRegions, substBlocks_id, substRegions_id]

theorem substBlocks_id : (blocks : Region ι) →
    substBlocks (fun i ↦ i) (Value.map fun i ↦ i) blocks = blocks
  | [] => rfl
  | block :: blocks => by simp only [substBlocks, Blk.subst_id, substBlocks_id]

theorem Blk.subst_id : (block : Blk ι) → block.subst (fun i ↦ i) (Value.map fun i ↦ i) = block
  | .mk id numArgs ops => by cases id <;> simp only [Blk.subst, BlockId.map, substOps_id]

theorem substOps_id : (ops : List (Op ι)) →
    substOps (fun i ↦ i) (Value.map fun i ↦ i) ops = ops
  | [] => rfl
  | op :: ops => by simp only [substOps, Op.subst_id, substOps_id]

end

theorem Op.map_map {μ : Type} (g : κ → μ) (f : ι → κ) (op : Op ι) :
    (op.map f).map g = op.map (g ∘ f) := by
  have hvalue : Value.map g ∘ Value.map f = Value.map (g ∘ f) :=
    funext fun value ↦ value.map_map g f
  rw [Op.map, Op.map, Op.subst_subst, hvalue, Op.map]

theorem Op.map_id (op : Op ι) : op.map (fun i ↦ i) = op := op.subst_id

/-! ## Identities of an operation with everything nested in it -/

mutual

/-- The identities a clone of `op` renames: its operations, and the operations whose rewrite
created its blocks. -/
def Op.defs : Op ι → List ι
  | .mk id _ _ _ _ _ regions => id :: defsRegions regions

def defsRegions : List (Region ι) → List ι
  | [] => []
  | region :: regions => defsBlocks region ++ defsRegions regions

def defsBlocks : Region ι → List ι
  | [] => []
  | block :: blocks => block.defs ++ defsBlocks blocks

def Blk.defs : Blk ι → List ι
  | .mk (.entry _ _) _ ops => defsOps ops
  | .mk (.new op _) _ ops => op :: defsOps ops

def defsOps : List (Op ι) → List ι
  | [] => []
  | op :: ops => op.defs ++ defsOps ops

end

theorem defsOps_append (ops ops' : List (Op ι)) :
    defsOps (ops ++ ops') = defsOps ops ++ defsOps ops' := by
  induction ops with
  | nil => rfl
  | cons op ops ih => rw [List.cons_append, defsOps, defsOps, ih, List.append_assoc]

end DeclarativeMlir.Lua
