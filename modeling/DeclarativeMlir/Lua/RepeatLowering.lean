import DeclarativeMlir.Lua.ClosureConversion
import DeclarativeMlir.Lua.LoweringOrder
import DeclarativeMlir.Lua.MixedRuns

/-!
# Lowering of `lua.repeat`

`lowerRepeatUntil` clones the body and the condition of the loop into one block, with a mapping
of its own each. A condition that uses a value of the body keeps the value of the erased op.
-/

namespace DeclarativeMlir.Lua

/-! ## The names in an op -/

section

variable {ι κ : Type}

mutual

/-- The identities in `op` except those of its operands: of ops, of labels and of successors. -/
def Op.labels : Op ι → List ι
  | .mk id _ _ _ _ successors regions =>
    id :: (successors.map BlockId.owner ++ labelsRegions regions)

def labelsRegions : List (Region ι) → List ι
  | [] => []
  | region :: regions => labelsBlocks region ++ labelsRegions regions

def labelsBlocks : Region ι → List ι
  | [] => []
  | block :: blocks => block.labels ++ labelsBlocks blocks

def Blk.labels : Blk ι → List ι
  | .mk id _ ops => id.owner :: labelsOps ops

def labelsOps : List (Op ι) → List ι
  | [] => []
  | op :: ops => op.labels ++ labelsOps ops

end

theorem append_mono {s s' t t' : List ι} (hs : s ⊆ s') (ht : t ⊆ t') : s ++ t ⊆ s' ++ t' :=
  List.append_subset.mpr ⟨List.subset_append_of_subset_left _ hs,
    List.subset_append_of_subset_right _ ht⟩

mutual

theorem Op.defs_subset_labels : (op : Op ι) → op.defs ⊆ op.labels
  | .mk id name attr operands numResults successors regions => by
    rw [Op.defs, Op.labels]
    exact List.cons_subset_cons _
      (fun x hx ↦ List.mem_append_right _ (defsRegions_subset_labels regions hx))

theorem defsRegions_subset_labels :
    (regions : List (Region ι)) → defsRegions regions ⊆ labelsRegions regions
  | [] => List.Subset.refl _
  | region :: regions => by
    rw [defsRegions, labelsRegions]
    exact append_mono (defsBlocks_subset_labels region)
      (defsRegions_subset_labels regions)

theorem defsBlocks_subset_labels : (blocks : Region ι) → defsBlocks blocks ⊆ labelsBlocks blocks
  | [] => List.Subset.refl _
  | block :: blocks => by
    rw [defsBlocks, labelsBlocks]
    exact append_mono block.defs_subset_labels (defsBlocks_subset_labels blocks)

theorem Blk.defs_subset_labels : (block : Blk ι) → block.defs ⊆ block.labels
  | .mk (.entry op k) numArgs ops => by
    rw [Blk.defs, Blk.labels]
    exact fun x hx ↦ .tail _ (defsOps_subset_labels ops hx)
  | .mk (.new op k) numArgs ops => by
    rw [Blk.defs, Blk.labels]
    exact List.cons_subset_cons _ (defsOps_subset_labels ops)

theorem defsOps_subset_labels : (ops : List (Op ι)) → defsOps ops ⊆ labelsOps ops
  | [] => List.Subset.refl _
  | op :: ops => by
    rw [defsOps, labelsOps]
    exact append_mono op.defs_subset_labels (defsOps_subset_labels ops)

end

theorem BlockId.map_congr {f g : ι → κ} {label : BlockId ι} (h : f label.owner = g label.owner) :
    label.map f = label.map g := by
  cases label <;> simpa [BlockId.map, BlockId.owner] using h

/-- `f` and `g` agree on the names of an op, `v` and `w` on its operands. -/
structure Agree (f g : ι → κ) (v w : Value ι → Value κ) (names : List ι) (ops : List (Op ι)) :
    Prop where
  names : ∀ x ∈ names, f x = g x
  operands : ∀ op ∈ ops, ∀ value ∈ op.operands, v value = w value

variable {f g : ι → κ} {v w : Value ι → Value κ}

theorem Agree.left {names names' : List ι} {ops ops' : List (Op ι)}
    (h : Agree f g v w (names ++ names') (ops ++ ops')) : Agree f g v w names ops where
  names x hx := h.names x (List.mem_append_left _ hx)
  operands op hop := h.operands op (List.mem_append_left _ hop)

theorem Agree.right {names names' : List ι} {ops ops' : List (Op ι)}
    (h : Agree f g v w (names ++ names') (ops ++ ops')) : Agree f g v w names' ops' where
  names x hx := h.names x (List.mem_append_right _ hx)
  operands op hop := h.operands op (List.mem_append_right _ hop)

mutual

theorem Op.subst_congr : (op : Op ι) → Agree f g v w op.labels op.walk →
    op.subst f v = op.subst g w
  | .mk id name attr operands numResults successors regions, h => by
    rw [Op.labels, Op.walk] at h
    have hid : f id = g id := h.names id List.mem_cons_self
    have hoperands : operands.map v = operands.map w :=
      List.map_congr_left (h.operands _ List.mem_cons_self)
    have hsuccessors : successors.map (BlockId.map f) = successors.map (BlockId.map g) :=
      List.map_congr_left fun label hlabel ↦ BlockId.map_congr
        (h.names _ (.tail _ (List.mem_append_left _ (List.mem_map_of_mem hlabel))))
    have hregions := substRegions_congr regions
      ⟨fun x hx ↦ h.names x (.tail _ (List.mem_append_right _ hx)),
        fun op hop ↦ h.operands op (.tail _ hop)⟩
    simp only [Op.subst, hid, hoperands, hsuccessors, hregions]

theorem substRegions_congr : (regions : List (Region ι)) →
    Agree f g v w (labelsRegions regions) (walkRegions regions) →
      substRegions f v regions = substRegions g w regions
  | [], _ => rfl
  | region :: regions, h => by
    rw [labelsRegions, walkRegions] at h
    simp only [substRegions, substBlocks_congr region h.left, substRegions_congr regions h.right]

theorem substBlocks_congr : (blocks : Region ι) →
    Agree f g v w (labelsBlocks blocks) (walkBlocks blocks) →
      substBlocks f v blocks = substBlocks g w blocks
  | [], _ => rfl
  | block :: blocks, h => by
    rw [labelsBlocks, walkBlocks] at h
    simp only [substBlocks, Blk.subst_congr block h.left, substBlocks_congr blocks h.right]

theorem Blk.subst_congr : (block : Blk ι) → Agree f g v w block.labels block.walk →
    block.subst f v = block.subst g w
  | .mk id numArgs ops, h => by
    rw [Blk.labels, Blk.walk] at h
    have hid : id.map f = id.map g := BlockId.map_congr (h.names _ List.mem_cons_self)
    have hops := substOps_congr ops ⟨fun x hx ↦ h.names x (.tail _ hx), h.operands⟩
    simp only [Blk.subst, hid, hops]

theorem substOps_congr : (ops : List (Op ι)) → Agree f g v w (labelsOps ops) (walkOps ops) →
    substOps f v ops = substOps g w ops
  | [], _ => rfl
  | op :: ops, h => by
    rw [labelsOps, walkOps] at h
    simp only [substOps, Op.subst_congr op h.left, substOps_congr ops h.right]

end

end

/-! ## A loop in its function -/

/-- A `lua.repeat` with a `lua.until` at the end of its body and a `lua.cond` at the end of the
condition, in a block of a function. -/
structure RepeatLoop where
  blocks : Region OpId
  label : BlockId OpId
  numArgs : ℕ
  before : List (Op OpId)
  id : OpId
  attr : Attr
  body : List (Op OpId)
  untilId : OpId
  untilAttr : Attr
  expression : List (Op OpId)
  condId : OpId
  condAttr : Attr
  cond : Value OpId
  rest : List (Op OpId)
  blocks' : Region OpId

namespace RepeatLoop

variable (loop : RepeatLoop)

def condOp : Op OpId := .mk loop.condId .cond loop.condAttr [loop.cond] 0 [] []

def eval : List (Op OpId) := loop.expression ++ [loop.condOp]

def untilOp : Op OpId :=
  .mk loop.untilId .until loop.untilAttr [] 0 [] [[.mk (.entry loop.untilId 0) 0 loop.eval]]

/-- The ops of the region of the loop. -/
def code : List (Op OpId) := loop.body ++ [loop.untilOp]

def op : Op OpId := .mk loop.id .repeat loop.attr [] 0 [] [[.mk (.entry loop.id 0) 0 loop.code]]

def region : Region OpId :=
  loop.blocks ++ .mk loop.label loop.numArgs (loop.before ++ loop.op :: loop.rest) :: loop.blocks'

/-- The function without the loop. -/
def context : Region OpId :=
  loop.blocks ++ .mk loop.label loop.numArgs (loop.before ++ loop.rest) :: loop.blocks'

/-- The function after the pattern. -/
def lowered (expansion : Expansion OpId) : Region OpId :=
  loop.blocks ++ expansion.splice loop.label loop.numArgs loop.before loop.rest ++ loop.blocks'

/-- An identity that the pattern creates. -/
def Created : OpId → Prop
  | .clone op => op ∈ defsOps loop.code
  | .new op _ => op = loop.id
  | .src _ => False

instance : DecidablePred loop.Created
  | .clone op => inferInstanceAs (Decidable (op ∈ _))
  | .new op _ => inferInstanceAs (Decidable (op = _))
  | .src _ => inferInstanceAs (Decidable False)

end RepeatLoop

/-- A loop with a straight-line body in a verified function: ops use values that are in scope, and
identities that are created are new. -/
structure RepeatSite extends RepeatLoop where
  straight : ∀ op ∈ body, op.name.IsStraight
  not_terminator : ∀ op ∈ expression, ¬ op.name.IsTerminator
  context_labels : ∀ x ∈ labelsBlocks toRepeatLoop.context, x ∉ defsOps toRepeatLoop.code
  context_uses : ∀ op ∈ walkBlocks toRepeatLoop.context, ∀ value ∈ op.operands,
    value.owner ∉ toRepeatLoop.op.defs
  body_labels : ∀ x ∈ labelsOps body, x ∉ toRepeatLoop.untilOp.defs
  body_uses : ∀ op ∈ walkOps body, ∀ value ∈ op.operands,
    value.owner ∉ id :: toRepeatLoop.untilOp.defs
  eval_labels : ∀ x ∈ labelsOps toRepeatLoop.eval, x ∉ untilId :: defsOps body
  eval_uses : ∀ op ∈ walkOps toRepeatLoop.eval, ∀ value ∈ op.operands,
    value.owner ∉ [id, untilId]
  fresh_labels : ∀ x ∈ labelsBlocks toRepeatLoop.region, ¬ toRepeatLoop.Created x
  fresh_uses : ∀ op ∈ walkBlocks toRepeatLoop.region, ∀ value ∈ op.operands,
    ¬ toRepeatLoop.Created value.owner
  fresh_successors : ∀ op ∈ walkBlocks toRepeatLoop.region, ∀ k, .new id k ∉ op.successors
  fresh_blocks : ∀ block ∈ toRepeatLoop.region, ∀ k, block.id ≠ .new id k

namespace RepeatLoop

variable (loop : RepeatLoop)

/-- `lowerCond` on the ops copied into the block of the loop. -/
def lowerCopied (copied : List (Op OpId)) : Option (List (Op OpId)) :=
  lowerCond (.new loop.id 1) (.new loop.id 2) (.new loop.id 1) (.new loop.id 0) copied

/-- The graph in the place of the loop does what the loop does. -/
structure Correct (expansion : Expansion OpId) : Prop where
  /-- no op that remains uses a value of an erased op -/
  no_erased : ∀ op ∈ walkBlocks (loop.lowered expansion), ∀ value ∈ op.operands,
    value.owner ∉ loop.op.defs
  /-- the block of the loop is one copy of the body and the condition, so that a value of the body
  in the condition is that of the copy -/
  one_mapping : ∃ ops, loop.lowerCopied (copyInto none [] (loop.body ++ loop.eval)) = some ops ∧
    expansion.split = some ([.mk (.new loop.id 0) 0 ops], .new loop.id 1)
  /-- the body is executed, and again until the condition is truthy -/
  same_runs : ∀ {V S : Type} (interp : Interp V S), ∀ block ∈ loop.region,
    ∀ (env : Value OpId → Option V) (store : S),
      (∀ value, loop.Created value.owner ∨ value.owner ∈ loop.op.defs → env value = none) →
        EventMachine.SameRuns
          (Mixed.step interp loop.region) (Mixed.enter loop.region block.id env store)
          (Mixed.step interp (loop.lowered expansion))
          (Mixed.enter (loop.lowered expansion) block.id env store)

end RepeatLoop

end DeclarativeMlir.Lua
