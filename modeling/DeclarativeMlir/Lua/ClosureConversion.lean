import DeclarativeMlir.Lua.LoweringNormalForm

/-!
# Closure conversion

`explicitCapture` turns a `lua.function_def` into a `lua.function_def_capture`, whose operands are
the values its body uses from outside, and `argPackFunctionDef` turns that into a
`luaopt.pack_func`, whose body unpacks its captures and its arguments first. Both are applied at
any place of a nest of functions and control flow. An op that replaces another one keeps its
identity, so the uses of its result stay as they are.
-/

namespace DeclarativeMlir.Lua

variable {ι : Type}

/-! ## Walking nested ops -/

mutual

/-- The ops in `op`, itself included, in the order of `walkInOrder`. -/
def Op.walk : Op ι → List (Op ι)
  | .mk id name attr operands numResults successors regions =>
    .mk id name attr operands numResults successors regions :: walkRegions regions

def walkRegions : List (Region ι) → List (Op ι)
  | [] => []
  | region :: regions => walkBlocks region ++ walkRegions regions

def walkBlocks : Region ι → List (Op ι)
  | [] => []
  | block :: blocks => block.walk ++ walkBlocks blocks

def Blk.walk : Blk ι → List (Op ι)
  | .mk _ _ ops => walkOps ops

def walkOps : List (Op ι) → List (Op ι)
  | [] => []
  | op :: ops => op.walk ++ walkOps ops

end

mutual

theorem Op.id_mem_defs_of_mem_walk {nested : Op ι} :
    (op : Op ι) → nested ∈ op.walk → nested.id ∈ op.defs
  | .mk id name attr operands numResults successors regions, hnested => by
    rw [Op.walk, List.mem_cons] at hnested
    rw [Op.defs, List.mem_cons]
    rcases hnested with rfl | hnested
    · exact .inl rfl
    · exact .inr (id_mem_defsRegions_of_mem_walk regions hnested)

theorem id_mem_defsRegions_of_mem_walk {nested : Op ι} :
    (regions : List (Region ι)) → nested ∈ walkRegions regions → nested.id ∈ defsRegions regions
  | [], hnested => by simp [walkRegions] at hnested
  | region :: regions, hnested => by
    rw [walkRegions, List.mem_append] at hnested
    rw [defsRegions, List.mem_append]
    exact hnested.imp (id_mem_defsBlocks_of_mem_walk region)
      (id_mem_defsRegions_of_mem_walk regions)

theorem id_mem_defsBlocks_of_mem_walk {nested : Op ι} :
    (blocks : Region ι) → nested ∈ walkBlocks blocks → nested.id ∈ defsBlocks blocks
  | [], hnested => by simp [walkBlocks] at hnested
  | block :: blocks, hnested => by
    rw [walkBlocks, List.mem_append] at hnested
    rw [defsBlocks, List.mem_append]
    exact hnested.imp (Blk.id_mem_defs_of_mem_walk block) (id_mem_defsBlocks_of_mem_walk blocks)

theorem Blk.id_mem_defs_of_mem_walk {nested : Op ι} :
    (block : Blk ι) → nested ∈ block.walk → nested.id ∈ block.defs
  | .mk (.entry _ _) _ ops, hnested => id_mem_defsOps_of_mem_walk ops hnested
  | .mk (.new _ _) _ ops, hnested => .tail _ (id_mem_defsOps_of_mem_walk ops hnested)

theorem id_mem_defsOps_of_mem_walk {nested : Op ι} :
    (ops : List (Op ι)) → nested ∈ walkOps ops → nested.id ∈ defsOps ops
  | [], hnested => by simp [walkOps] at hnested
  | op :: ops, hnested => by
    rw [walkOps, List.mem_append] at hnested
    rw [defsOps, List.mem_append]
    exact hnested.imp (Op.id_mem_defs_of_mem_walk op) (id_mem_defsOps_of_mem_walk ops)

end

theorem walkOps_append (ops ops' : List (Op ι)) :
    walkOps (ops ++ ops') = walkOps ops ++ walkOps ops' := by
  induction ops with
  | nil => rfl
  | cons op ops ih => rw [List.cons_append, walkOps, walkOps, ih, List.append_assoc]

section

variable {κ : Type} (f : ι → κ) (v : Value ι → Value κ)

mutual

theorem Op.walk_subst : (op : Op ι) → (op.subst f v).walk = op.walk.map (Op.subst f v)
  | .mk id name attr operands numResults successors regions => by
    simp only [Op.subst, Op.walk, walkRegions_subst, List.map_cons]

theorem walkRegions_subst : (regions : List (Region ι)) →
    walkRegions (substRegions f v regions) = (walkRegions regions).map (Op.subst f v)
  | [] => rfl
  | region :: regions => by
    simp only [substRegions, walkRegions, walkBlocks_subst, walkRegions_subst, List.map_append]

theorem walkBlocks_subst : (blocks : Region ι) →
    walkBlocks (substBlocks f v blocks) = (walkBlocks blocks).map (Op.subst f v)
  | [] => rfl
  | block :: blocks => by
    simp only [substBlocks, walkBlocks, Blk.walk_subst, walkBlocks_subst, List.map_append]

theorem Blk.walk_subst : (block : Blk ι) →
    (block.subst f v).walk = block.walk.map (Op.subst f v)
  | .mk id numArgs ops => by simp only [Blk.subst, Blk.walk, walkOps_subst]

theorem walkOps_subst : (ops : List (Op ι)) →
    walkOps (substOps f v ops) = (walkOps ops).map (Op.subst f v)
  | [] => rfl
  | op :: ops => by
    simp only [substOps, walkOps, Op.walk_subst, walkOps_subst, List.map_append]

end

end

/-- The operands of an op and of the ops in it. -/
def uses (ops : List (Op ι)) : List (Value ι) := (walkOps ops).flatMap Op.operands

@[simp]
theorem uses_nil : uses ([] : List (Op ι)) = [] := rfl

@[simp]
theorem uses_append (ops ops' : List (Op ι)) : uses (ops ++ ops') = uses ops ++ uses ops' := by
  rw [uses, uses, uses, walkOps_append, List.flatMap_append]

theorem uses_cons (op : Op ι) (ops : List (Op ι)) : uses (op :: ops) = uses [op] ++ uses ops :=
  uses_append [op] ops

theorem uses_substOps {κ : Type} (f : ι → κ) (v : Value ι → Value κ) (ops : List (Op ι)) :
    uses (substOps f v ops) = (uses ops).map v := by
  rw [uses, uses, walkOps_subst, List.flatMap_map, List.map_flatMap]
  exact List.flatMap_congr fun op _ ↦ by cases op; rfl

/-- The ops of which `op` is a proper ancestor. -/
def Op.descendants (op : Op ι) : List ι := (walkRegions op.regions).map Op.id

/-! ## The two rewrites -/

section

variable [DecidableEq ι] [Naming ι]

/-- The test of `collectCaptures`; `ancestors` are the blocks around `op`. -/
def IsCapture (ancestors : List (BlockId ι)) (op : Op ι) : Value ι → Prop
  | .res definingOp _ => definingOp ∉ op.descendants
  | .arg owner _ => owner ∈ ancestors

/-- `captures = list(captures)`: each collected value once, in any order. -/
structure CaptureList (ancestors : List (BlockId ι)) (op : Op ι) (captures : List (Value ι)) :
    Prop where
  nodup : captures.Nodup
  mem_iff : ∀ value, value ∈ captures ↔ value ∈ uses [op] ∧ IsCapture ancestors op value

/-- The mapping of `explicitCapture`: captures, then parameters, to the arguments of the entry. -/
def captureMapping (entry prev : BlockId ι) (captures : List (Value ι)) (numParams : ℕ) :
    List (Value ι × Value ι) :=
  captures.zipIdx.map (fun (capture, i) ↦ (capture, .arg entry i)) ++
    (List.range numParams).map fun i ↦ (.arg prev i, .arg entry (captures.length + i))

def explicitCapture (captures : List (Value ι)) : Op ι → Option (Op ι)
  | .mk id .function_def (.strs params) [] 1 [] [[.mk prev numArgs body]] =>
    let entry := BlockId.new id 0
    some (.mk id .function_def_capture (.strs params) captures 1 [] [[
      .mk entry (captures.length + numArgs)
        (copyInto none (captureMapping entry prev captures numArgs) body)]])
  | _ => none

/-- The mapping of `argPackFunctionDef`: the arguments of the block to the unpacked captures and
arguments. -/
def argPackMapping (prev : BlockId ι) (caps args : ι) (numCaptures numParams : ℕ) :
    List (Value ι × Value ι) :=
  (List.range numCaptures).map (fun i ↦ (Value.arg prev i, Value.res caps i)) ++
    (List.range numParams).map fun i ↦ (.arg prev (numCaptures + i), .res args i)

def argPackFunctionDef : Op ι → Option (Op ι)
  | .mk id .function_def_capture (.strs params) captures 1 [] [[.mk prev _ body]] =>
    let entry := BlockId.new id 1
    let caps : ι := Naming.new id 0
    let args : ι := Naming.new id 1
    some (.mk id .pack_func .none captures 1 [] [[
      .mk entry 2 (
        create caps .get_captures [.arg entry 0] captures.length ::
        create args .unpack [.arg entry 1] params.length ::
        copyInto none (argPackMapping prev caps args captures.length params.length) body)]])
  | _ => none

end

/-- A rewrite of one op, anywhere in a list of ops; `ancestors` are the blocks around them. -/
inductive RewriteAt (rewrite : List (BlockId OpId) → Op OpId → Op OpId → Prop) :
    List (BlockId OpId) → List (Op OpId) → List (Op OpId) → Prop where
  | here {ancestors op op'} (rest : List (Op OpId)) (hop : rewrite ancestors op op') :
      RewriteAt rewrite ancestors (op :: rest) (op' :: rest)
  | later {ancestors rest rest'} (op : Op OpId) (hrest : RewriteAt rewrite ancestors rest rest') :
      RewriteAt rewrite ancestors (op :: rest) (op :: rest')
  | inside {ancestors ops ops'} (id : OpId) (name : OpName) (attr : Attr)
      (operands : List (Value OpId)) (numResults : ℕ) (regions : List (Region OpId))
      (label : BlockId OpId) (numArgs : ℕ) (regions' : List (Region OpId))
      (rest : List (Op OpId)) (hops : RewriteAt rewrite (label :: ancestors) ops ops') :
      RewriteAt rewrite ancestors
        (.mk id name attr operands numResults []
          (regions ++ [.mk label numArgs ops] :: regions') :: rest)
        (.mk id name attr operands numResults []
          (regions ++ [.mk label numArgs ops'] :: regions') :: rest)

/-- The pattern `explicitCapture` is applied to a `lua.function_def`. -/
def CaptureStep : List (BlockId OpId) → List (Op OpId) → List (Op OpId) → Prop :=
  RewriteAt fun ancestors op op' ↦
    ∃ captures, CaptureList ancestors op captures ∧ explicitCapture captures op = some op'

/-- The pattern `argPackFunctionDef` is applied to a `lua.function_def_capture`. -/
def ArgPackStep : List (BlockId OpId) → List (Op OpId) → List (Op OpId) → Prop :=
  RewriteAt fun _ op op' ↦ argPackFunctionDef op = some op'

end DeclarativeMlir.Lua
