import DeclarativeMlir.Lua.RepeatLowering
import Mathlib.Data.Option.Basic

/-!
# Runs of lowered `lua.repeat` loops

A condition that uses no value of the body is cloned like the body, with the names of one copy.
The graph is then simulated: what the clones define agrees with what their originals define, and
everything else is unchanged.
-/

namespace DeclarativeMlir.Lua

section

variable {ι : Type}

theorem labelsOps_eq_flatMap (ops : List (Op ι)) : labelsOps ops = ops.flatMap Op.labels := by
  induction ops with
  | nil => rfl
  | cons op ops ih => rw [labelsOps, ih, List.flatMap_cons]

theorem labelsBlocks_eq_flatMap (blocks : Region ι) :
    labelsBlocks blocks = blocks.flatMap Blk.labels := by
  induction blocks with
  | nil => rfl
  | cons block blocks ih => rw [labelsBlocks, ih, List.flatMap_cons]

theorem walkOps_eq_flatMap (ops : List (Op ι)) : walkOps ops = ops.flatMap Op.walk := by
  induction ops with
  | nil => rfl
  | cons op ops ih => rw [walkOps, ih, List.flatMap_cons]

theorem walkBlocks_eq_flatMap (blocks : Region ι) :
    walkBlocks blocks = blocks.flatMap Blk.walk := by
  induction blocks with
  | nil => rfl
  | cons block blocks ih => rw [walkBlocks, ih, List.flatMap_cons]

theorem Op.mem_walk_self (op : Op ι) : op ∈ op.walk := by
  cases op
  rw [Op.walk]
  exact List.mem_cons_self

theorem Op.walk_block0 {op : Op ι} {region : Region ι} (hregion : region ∈ op.regions) :
    walkOps (getBlock0 region) ⊆ op.walk := by
  obtain ⟨id, name, attr, operands, numResults, successors, regions⟩ := op
  intro nested hnested
  rw [Op.walk]
  refine List.mem_cons_of_mem _ ?_
  induction regions with
  | nil => cases hregion
  | cons region' regions ih =>
    rw [walkRegions, List.mem_append]
    rcases List.mem_cons.mp hregion with rfl | hregion
    · left
      cases region with
      | nil => simp [getBlock0, walkOps] at hnested
      | cons block blocks =>
        rw [walkBlocks, List.mem_append]
        left
        cases block
        exact hnested
    · exact .inr (ih hregion)

theorem Op.labels_id_mem (op : Op ι) : op.id ∈ op.labels := by
  cases op
  rw [Op.labels]
  exact List.mem_cons_self

theorem Op.regions_map {κ : Type} (f : ι → κ) (op : Op ι) :
    (op.map f).regions = op.regions.map (mapBlocks f) := by
  cases op
  simp only [Op.map, Op.subst, Op.regions_mk, substRegions_eq_map]
  rfl

theorem Op.successors_map {κ : Type} (f : ι → κ) (op : Op ι) :
    (op.map f).successors = op.successors.map (BlockId.map f) := by
  cases op
  rfl

theorem getBlock0_mapBlocks {κ : Type} (f : ι → κ) (region : Region ι) :
    getBlock0 (mapBlocks f region) = mapOps f (getBlock0 region) := by
  cases region with
  | nil => rfl
  | cons block blocks =>
    cases block
    rfl

end

namespace RepeatSite

variable {V S : Type} (site : RepeatSite)

/-- The ops of the loop have the names of their clones. -/
def rename : OpId → OpId := cloneIds site.code

def condTarget : List (Op OpId) :=
  [create (.new site.id 1) .convert_bool_like [site.cond.map site.rename] 1,
    CondBranchOp (.new site.id 2) (.res (.new site.id 1) 0) (.new site.id 1) (.new site.id 0)]

def evalTarget : List (Op OpId) := mapOps site.rename site.expression ++ site.condTarget

def codeTarget : List (Op OpId) := mapOps site.rename site.body ++ site.evalTarget

def branch : Op OpId := BranchOp (.new site.id 0) (.new site.id 0)

/-- The function with one copy of the body and the condition. -/
def target : Region OpId :=
  site.blocks ++ [.mk site.label site.numArgs (site.before ++ [site.branch]),
    .mk (.new site.id 0) 0 site.codeTarget, .mk (.new site.id 1) 0 site.rest] ++ site.blocks'

/-! ## Names -/

theorem rename_of_mem {x : OpId} (hx : x ∈ defsOps site.code) : site.rename x = .clone x := by
  simp [rename, cloneIds, hx, Naming.clone]

theorem rename_of_notMem {x : OpId} (hx : x ∉ defsOps site.code) : site.rename x = x := by
  simp [rename, cloneIds, hx]

theorem rename_injective {x y : OpId} (hx : ¬ site.Created x) (hy : ¬ site.Created y)
    (hxy : site.rename x = site.rename y) : x = y := by
  by_cases hxmem : x ∈ defsOps site.code <;> by_cases hymem : y ∈ defsOps site.code
  · simpa [rename_of_mem, hxmem, hymem] using hxy
  · rw [site.rename_of_mem hxmem, site.rename_of_notMem hymem] at hxy
    exact absurd (hxy ▸ hxmem : site.Created y) hy
  · rw [site.rename_of_notMem hxmem, site.rename_of_mem hymem] at hxy
    exact absurd (hxy ▸ hymem : site.Created x) hx
  · rwa [site.rename_of_notMem hxmem, site.rename_of_notMem hymem] at hxy

theorem rename_ne_new {x : OpId} (hx : ¬ site.Created x) (k : ℕ) :
    site.rename x ≠ .new site.id k := by
  by_cases hmem : x ∈ defsOps site.code
  · rw [site.rename_of_mem hmem]
    exact OpId.noConfusion
  · rw [site.rename_of_notMem hmem]
    intro h
    exact hx (h ▸ rfl)

theorem origin_rename : OpId.origin ∘ site.rename = OpId.origin := by
  funext x
  by_cases hmem : x ∈ defsOps site.code
  · rw [Function.comp_apply, site.rename_of_mem hmem]
    rfl
  · rw [Function.comp_apply, site.rename_of_notMem hmem]

theorem map_origin_rename (op : Op OpId) :
    (op.map site.rename).map OpId.origin = op.map OpId.origin := by
  rw [Op.map_map, origin_rename]

/-! ## Matching values and code -/

/-- `op` mentions nothing that the pattern creates. -/
structure Plain (op : Op OpId) : Prop where
  id : ¬ site.Created op.id
  operands : ∀ value ∈ op.operands, ¬ site.Created value.owner
  successors : ∀ k, .new site.id k ∉ op.successors

def Untouched (ops : List (Op OpId)) : Prop := ∀ op ∈ walkOps ops, site.Plain op

def EnvMatch (env env' : Value OpId → Option V) : Prop :=
  ∀ value, ¬ site.Created value.owner → env' (value.map site.rename) = env value

/-- Where an op is executed: in the loop, or outside of it or in an op in the loop. -/
inductive Level where
  | outside
  | inside
  deriving DecidableEq

inductive CodeMatch : Level → List (Op OpId) → List (Op OpId) → Prop where
  | nil {level} : CodeMatch level [] []
  | cons {level op rest rest'} (hop : site.Untouched [op])
      (hname : level = .inside → ¬ op.name.IsTerminator) (hrest : CodeMatch level rest rest') :
      CodeMatch level (op :: rest) (op.map site.rename :: rest')
  | loop : CodeMatch .outside (site.op :: site.rest) [site.branch]
  | until : CodeMatch .inside [site.untilOp] site.evalTarget
  | cond : CodeMatch .inside [site.condOp] site.condTarget

open Mixed (Frame Config Move)

/-- The frames under the code of a level. -/
inductive FramesMatch : Level → List Frame → List Frame → Prop where
  | nil : FramesMatch .outside [] []
  | branch {level rest rest' frames frames'} (hrest : site.CodeMatch level rest rest')
      (hframes : FramesMatch level frames frames') :
      FramesMatch .outside (.branch rest :: frames) (.branch rest' :: frames')
  | loop {level eval region rest rest' frames frames'}
      (heval : site.Untouched (getBlock0 eval)) (hregion : site.Untouched (getBlock0 region))
      (hrest : site.CodeMatch level rest rest') (hframes : FramesMatch level frames frames') :
      FramesMatch .outside (.loop eval region rest :: frames)
        (.loop (mapBlocks site.rename eval) (mapBlocks site.rename region) rest' :: frames')
  | repeatUntil {level region rest rest' frames frames'}
      (hregion : site.Untouched (getBlock0 region))
      (hrest : site.CodeMatch level rest rest') (hframes : FramesMatch level frames frames') :
      FramesMatch .outside (.repeatUntil region rest :: frames)
        (.repeatUntil (mapBlocks site.rename region) rest' :: frames')
  | site {frames frames'} (hframes : FramesMatch .outside frames frames') :
      FramesMatch .inside
        (.repeatUntil [.mk (.entry site.id 0) 0 site.code] site.rest :: frames) frames'

def MovesMatch (move move' : Move V) : Prop :=
  move.1 = move'.1 ∧ ∃ level, site.CodeMatch level move.2.1 move'.2.1 ∧
    site.FramesMatch level move.2.2 move'.2.2

structure Matches (config config' : Config V S) : Prop where
  code : ∃ level, site.CodeMatch level config.code config'.code ∧
    site.FramesMatch level config.frames config'.frames
  env : site.EnvMatch config.env config'.env
  store : config.store = config'.store

theorem Untouched.block0 {op : Op OpId} (hop : site.Untouched [op]) {region : Region OpId}
    (hregion : region ∈ op.regions) : site.Untouched (getBlock0 region) := by
  intro nested hnested
  apply hop
  rw [walkOps, List.mem_append]
  exact .inl (op.walk_block0 hregion hnested)

theorem Untouched.plain {op : Op OpId} (hop : site.Untouched [op]) : site.Plain op := by
  apply hop
  rw [walkOps, List.mem_append]
  exact .inl op.mem_walk_self

theorem CodeMatch.append {level : Level} {ops rest rest' : List (Op OpId)}
    (hops : ∀ op ∈ ops, site.Untouched [op])
    (hnames : level = .inside → ∀ op ∈ ops, ¬ op.name.IsTerminator)
    (hrest : site.CodeMatch level rest rest') :
    site.CodeMatch level (ops ++ rest) (mapOps site.rename ops ++ rest') := by
  induction ops with
  | nil => exact hrest
  | cons op ops ih =>
    refine .cons (hops op List.mem_cons_self) (fun h ↦ hnames h op List.mem_cons_self) ?_
    exact ih (fun op hop ↦ hops op (.tail _ hop)) fun h op hop ↦ hnames h op (.tail _ hop)

theorem Untouched.mem {ops : List (Op OpId)} (hops : site.Untouched ops) {op : Op OpId}
    (hop : op ∈ ops) : site.Untouched [op] := by
  intro nested hnested
  apply hops
  rw [walkOps_eq_flatMap, List.mem_flatMap] at hnested ⊢
  obtain ⟨op', hop', hnested⟩ := hnested
  exact ⟨op', List.mem_singleton.mp hop' ▸ hop, hnested⟩

theorem CodeMatch.of_untouched {ops : List (Op OpId)} (hops : site.Untouched ops) :
    site.CodeMatch .outside ops (mapOps site.rename ops) := by
  have hmatch : site.CodeMatch .outside (ops ++ []) (mapOps site.rename ops ++ []) :=
    .append site (fun op hop ↦ hops.mem site hop) nofun .nil
  simpa using hmatch

/-! ## Values -/

theorem EnvMatch.operands {env env' : Value OpId → Option V} (henv : site.EnvMatch env env')
    {op : Op OpId} (hop : site.Plain op) :
    (op.map site.rename).operands.mapM env' = op.operands.mapM env := by
  have hvalues : ∀ values : List (Value OpId), (∀ value ∈ values, ¬ site.Created value.owner) →
      (values.map (Value.map site.rename)).mapM env' = values.mapM env := by
    intro values hvalues
    induction values with
    | nil => rfl
    | cons value values ih =>
      rw [List.map_cons, List.mapM_cons, List.mapM_cons, henv value (hvalues _ List.mem_cons_self),
        ih fun value hvalue ↦ hvalues value (.tail _ hvalue)]
  rw [Op.operands_map]
  exact hvalues _ hop.operands

theorem EnvMatch.define {env env' : Value OpId → Option V} (henv : site.EnvMatch env env')
    {id : OpId} (hid : ¬ site.Created id) (results : ℕ → V) :
    site.EnvMatch (Mixed.define id results env) (Mixed.define (site.rename id) results env') := by
  intro value hvalue
  cases value with
  | res op idx =>
    by_cases hop : op = id
    · simp [Mixed.define, setResults, Value.map, hop]
    · have hne : site.rename op ≠ site.rename id := fun h ↦
        hop (site.rename_injective hvalue hid h)
      simpa [Mixed.define, setResults, Value.map, hop, hne] using henv (.res op idx) hvalue
  | arg label idx => exact henv (.arg label idx) hvalue

theorem EnvMatch.defineNew {env env' : Value OpId → Option V} (henv : site.EnvMatch env env')
    (k : ℕ) (results : ℕ → V) :
    site.EnvMatch env (Mixed.define (.new site.id k) results env') := by
  intro value hvalue
  cases value with
  | res op idx =>
    have hne := site.rename_ne_new (x := op) hvalue k
    simpa [Mixed.define, setResults, Value.map, hne] using henv (.res op idx) hvalue
  | arg label idx => exact henv (.arg label idx) hvalue

/-! ## The parts of the function -/

theorem labels_subset {ι : Type} {region : Region ι} {block : Blk ι} (hblock : block ∈ region)
    {op : Op ι} (hop : op ∈ block.ops) : op.labels ⊆ labelsBlocks region := by
  intro x hx
  rw [labelsBlocks_eq_flatMap, List.mem_flatMap]
  refine ⟨block, hblock, ?_⟩
  cases block
  rw [Blk.labels, labelsOps_eq_flatMap]
  exact .tail _ (List.mem_flatMap.mpr ⟨op, hop, hx⟩)

theorem walk_subset {ι : Type} {region : Region ι} {block : Blk ι} (hblock : block ∈ region)
    {op : Op ι} (hop : op ∈ block.ops) : op.walk ⊆ walkBlocks region := by
  intro nested hnested
  rw [walkBlocks_eq_flatMap, List.mem_flatMap]
  refine ⟨block, hblock, ?_⟩
  cases block
  rw [Blk.walk, walkOps_eq_flatMap]
  exact List.mem_flatMap.mpr ⟨op, hop, hnested⟩

theorem block_mem_region :
    .mk site.label site.numArgs (site.before ++ site.op :: site.rest) ∈ site.region :=
  List.mem_append_right _ List.mem_cons_self

theorem block_mem_context :
    .mk site.label site.numArgs (site.before ++ site.rest) ∈ site.context :=
  List.mem_append_right _ List.mem_cons_self

theorem op_walk_subset : site.op.walk ⊆ walkBlocks site.region :=
  walk_subset site.block_mem_region (List.mem_append_right _ List.mem_cons_self)

theorem op_labels_subset : site.op.labels ⊆ labelsBlocks site.region :=
  labels_subset site.block_mem_region (List.mem_append_right _ List.mem_cons_self)

theorem walkBlocks_context_subset : walkBlocks site.context ⊆ walkBlocks site.region := by
  intro op hop
  simp only [RepeatLoop.context, RepeatLoop.region, walkBlocks_eq_flatMap, List.flatMap_append,
    List.flatMap_cons, List.mem_append, Blk.walk, walkOps_eq_flatMap] at hop ⊢
  tauto

theorem plain_of_mem {op : Op OpId} (hop : op ∈ walkBlocks site.region) : site.Plain op where
  id := site.fresh_labels _ (defsBlocks_subset_labels _ (id_mem_defsBlocks_of_mem_walk _ hop))
  operands := site.fresh_uses op hop
  successors := site.fresh_successors op hop

theorem walkOps_code_subset : walkOps site.code ⊆ walkBlocks site.region := by
  have hregion : [.mk (.entry site.id 0) 0 site.code] ∈ site.op.regions := List.mem_cons_self
  exact fun op hop ↦ site.op_walk_subset (site.op.walk_block0 hregion hop)

theorem untouched_code : site.Untouched site.code :=
  fun _ hop ↦ site.plain_of_mem (site.walkOps_code_subset hop)

theorem untouched_untilOp : site.Untouched [site.untilOp] :=
  site.untouched_code.mem site (List.mem_append_right _ List.mem_cons_self)

theorem untouched_eval : site.Untouched site.eval := by
  have hregion : [.mk (.entry site.untilId 0) 0 site.eval] ∈ site.untilOp.regions :=
    List.mem_cons_self
  exact site.untouched_untilOp.block0 site hregion

theorem untouched_of_context {block : Blk OpId} (hblock : block ∈ site.context) {op : Op OpId}
    (hop : op ∈ block.ops) : site.Untouched [op] := by
  intro nested hnested
  rw [walkOps, walkOps, List.append_nil] at hnested
  exact site.plain_of_mem (site.walkBlocks_context_subset (walk_subset hblock hop hnested))

theorem defsOps_code_subset : defsOps site.code ⊆ site.op.defs := by
  intro x hx
  simp only [RepeatLoop.op, Op.defs, defsRegions, defsBlocks, Blk.defs, List.append_nil]
  exact .tail _ hx

theorem map_rename_of_context {block : Blk OpId} (hblock : block ∈ site.context) {op : Op OpId}
    (hop : op ∈ block.ops) : op.map site.rename = op := by
  have hagree : Agree site.rename (fun x ↦ x) (Value.map site.rename) (Value.map fun x ↦ x)
      op.labels op.walk := by
    constructor
    · intro x hx
      exact site.rename_of_notMem (site.context_labels x (labels_subset hblock hop hx))
    · intro nested hnested value hvalue
      apply Value.map_congr
      apply site.rename_of_notMem
      intro hmem
      exact site.context_uses nested (walk_subset hblock hop hnested) value hvalue
        (site.defsOps_code_subset hmem)
  calc
    op.map site.rename = op.subst (fun x ↦ x) (Value.map fun x ↦ x) := op.subst_congr hagree
    _ = op := op.subst_id

theorem codeMatch_context {ops rest rest' : List (Op OpId)}
    (hops : ∀ op ∈ ops, ∃ block ∈ site.context, op ∈ block.ops)
    (hrest : site.CodeMatch .outside rest rest') :
    site.CodeMatch .outside (ops ++ rest) (ops ++ rest') := by
  have hmap : mapOps site.rename ops = ops := by
    have hfixed : ∀ op ∈ ops, op.map site.rename = op := by
      intro op hop
      obtain ⟨block, hblock, hmem⟩ := hops op hop
      exact site.map_rename_of_context hblock hmem
    calc
      mapOps site.rename ops = ops.map (Op.map site.rename) := substOps_eq_map _ _ ops
      _ = ops := by rw [List.map_congr_left hfixed, List.map_id']
  have hmatch : site.CodeMatch .outside (ops ++ rest) (mapOps site.rename ops ++ rest') := by
    refine .append site (fun op hop ↦ ?_) nofun hrest
    obtain ⟨block, hblock, hmem⟩ := hops op hop
    exact site.untouched_of_context hblock hmem
  rwa [hmap] at hmatch

theorem codeMatch_rest : site.CodeMatch .outside site.rest site.rest := by
  have hmatch : site.CodeMatch .outside (site.rest ++ []) (site.rest ++ []) :=
    site.codeMatch_context
      (fun _ hop ↦ ⟨_, site.block_mem_context, List.mem_append_right _ hop⟩) .nil
  simpa using hmatch

theorem codeMatch_before :
    site.CodeMatch .outside (site.before ++ site.op :: site.rest)
      (site.before ++ [site.branch]) :=
  site.codeMatch_context
    (fun op hop ↦ ⟨_, site.block_mem_context, List.mem_append_left _ hop⟩) .loop

theorem codeMatch_code : site.CodeMatch .inside site.code site.codeTarget := by
  refine .append site (fun op hop ↦ ?_) (fun _ op hop ↦ ?_) .until
  · exact site.untouched_code.mem site (List.mem_append_left _ hop)
  · exact (site.straight op hop).not_isTerminator

theorem codeMatch_eval : site.CodeMatch .inside site.eval site.evalTarget := by
  refine .append site (fun op hop ↦ ?_) (fun _ op hop ↦ site.not_terminator op hop) .cond
  exact site.untouched_eval.mem site (List.mem_append_left _ hop)

/-! ## Blocks -/

theorem region_labels : site.region.map Blk.id = site.context.map Blk.id := by
  simp [RepeatLoop.region, RepeatLoop.context, Blk.id]

theorem id_not_created : ¬ site.Created site.id := by
  apply site.fresh_labels
  exact site.op_labels_subset site.op.labels_id_mem

theorem blockOps_eq_none {region : Region OpId} {label : BlockId OpId}
    (hlabel : ∀ block ∈ region, block.id ≠ label) : Cfg.blockOps region label = none := by
  rw [Cfg.blockOps, List.find?_eq_none.mpr fun block hblock ↦ by simpa using hlabel block hblock]
  rfl

theorem owner_mem_labels {region : Region OpId} {block : Blk OpId} (hblock : block ∈ region) :
    block.id.owner ∈ labelsBlocks region := by
  rw [labelsBlocks_eq_flatMap, List.mem_flatMap]
  refine ⟨block, hblock, ?_⟩
  cases block
  exact List.mem_cons_self

theorem region_owner {block : Blk OpId} (hblock : block ∈ site.region) :
    block.id.owner ∉ defsOps site.code := by
  have hid : block.id ∈ site.context.map Blk.id := by
    rw [← region_labels]
    exact List.mem_map_of_mem hblock
  obtain ⟨block', hblock', hid⟩ := List.mem_map.mp hid
  rw [← hid]
  exact site.context_labels _ (owner_mem_labels hblock')

theorem target_label {block : Blk OpId} (hblock : block ∈ site.target) :
    (∃ block' ∈ site.region, block.id = block'.id) ∨ ∃ k, block.id = .new site.id k := by
  simp only [target, List.mem_append, List.mem_cons, List.not_mem_nil, or_false] at hblock
  rcases hblock with (hblock | rfl | rfl | rfl) | hblock
  · exact .inl ⟨block, List.mem_append_left _ hblock, rfl⟩
  · exact .inl ⟨_, site.block_mem_region, rfl⟩
  · exact .inr ⟨0, rfl⟩
  · exact .inr ⟨1, rfl⟩
  · exact .inl ⟨block, List.mem_append_right _ (.tail _ hblock), rfl⟩

theorem blockOps_append (blocks blocks' : Region OpId) (label : BlockId OpId) :
    Cfg.blockOps (blocks ++ blocks') label =
      (Cfg.blockOps blocks label).or (Cfg.blockOps blocks' label) := by
  simp only [Cfg.blockOps, List.find?_append]
  cases blocks.find? (fun block ↦ block.id == label) <;> rfl

theorem blockOps_cons_self (label : BlockId OpId) (numArgs : ℕ) (ops : List (Op OpId))
    (blocks : Region OpId) : Cfg.blockOps (.mk label numArgs ops :: blocks) label = some ops := by
  simp [Cfg.blockOps, Blk.id, Blk.ops]

theorem blockOps_cons_of_ne {label label' : BlockId OpId} (hne : label ≠ label') (numArgs : ℕ)
    (ops : List (Op OpId)) (blocks : Region OpId) :
    Cfg.blockOps (.mk label numArgs ops :: blocks) label' = Cfg.blockOps blocks label' := by
  simp [Cfg.blockOps, Blk.id, hne]

/-- Blocks of the context are unchanged. -/
theorem codeMatch_blocks {blocks : Region OpId} (hblocks : ∀ block ∈ blocks, block ∈ site.context)
    (label : BlockId OpId) :
    Option.Rel (site.CodeMatch .outside) (Cfg.blockOps blocks label)
      (Cfg.blockOps blocks label) := by
  induction blocks with
  | nil => exact .none
  | cons block blocks ih =>
    obtain ⟨id, numArgs, ops⟩ := block
    by_cases hid : id = label
    · subst hid
      rw [blockOps_cons_self]
      have hmatch : site.CodeMatch .outside (ops ++ []) (ops ++ []) :=
        site.codeMatch_context
          (fun _ hop ↦ ⟨_, hblocks _ List.mem_cons_self, hop⟩) .nil
      rw [List.append_nil] at hmatch
      exact .some hmatch
    · rw [blockOps_cons_of_ne hid]
      exact ih fun block hblock ↦ hblocks block (.tail _ hblock)

theorem rel_or {α β : Type} {r : α → β → Prop} {a a' : Option α} {b b' : Option β}
    (h : Option.Rel r a b) (h' : Option.Rel r a' b') : Option.Rel r (a.or a') (b.or b') := by
  cases h with
  | some h => exact .some h
  | none => exact h'

/-- A branch that is not the pattern's goes to the same block. -/
theorem codeMatch_blockOps {label : BlockId OpId} (hlabel : ∀ k, label ≠ .new site.id k) :
    Option.Rel (site.CodeMatch .outside) (Cfg.blockOps site.region label)
      (Cfg.blockOps site.target (label.map site.rename)) := by
  by_cases howner : label.owner ∈ defsOps site.code
  · -- a label in the loop is that of no block of the function
    have hregion : Cfg.blockOps site.region label = none :=
      blockOps_eq_none fun block hblock h ↦ site.region_owner hblock (h ▸ howner)
    have htarget : Cfg.blockOps site.target (label.map site.rename) = none := by
      refine blockOps_eq_none fun block hblock h ↦ ?_
      have hclone : block.id.owner = .clone label.owner := by
        rw [h, BlockId.owner_map, site.rename_of_mem howner]
      rcases site.target_label hblock with ⟨block', hblock', hid⟩ | ⟨k, hid⟩
      · have hfresh := site.fresh_labels _ (owner_mem_labels hblock')
        rw [← hid, hclone] at hfresh
        exact hfresh howner
      · have hid : site.id = .clone label.owner := by
          rw [← hclone, hid]
          rfl
        have hcreated : site.Created (.clone label.owner) := howner
        rw [← hid] at hcreated
        exact site.id_not_created hcreated
    rw [hregion, htarget]
    exact .none
  · have hmap : label.map site.rename = label := by
      calc
        label.map site.rename = label.map fun x ↦ x :=
          BlockId.map_congr (site.rename_of_notMem howner)
        _ = label := congrFun BlockId.map_id label
    have hblocks : ∀ block ∈ site.blocks, block ∈ site.context :=
      fun _ hblock ↦ List.mem_append_left _ hblock
    have hblocks' : ∀ block ∈ site.blocks', block ∈ site.context :=
      fun _ hblock ↦ List.mem_append_right _ (.tail _ hblock)
    rw [hmap, RepeatLoop.region, target, List.append_assoc, blockOps_append, blockOps_append]
    refine rel_or (site.codeMatch_blocks hblocks label) ?_
    by_cases hid : site.label = label
    · subst hid
      rw [List.cons_append, blockOps_cons_self, blockOps_cons_self]
      exact .some site.codeMatch_before
    · simp only [List.cons_append, List.nil_append]
      rw [blockOps_cons_of_ne hid, blockOps_cons_of_ne hid, blockOps_cons_of_ne (hlabel 0).symm,
        blockOps_cons_of_ne (hlabel 1).symm]
      exact site.codeMatch_blocks hblocks' label

theorem blockOps_new (k : ℕ) :
    Cfg.blockOps site.target (.new site.id k) =
      Cfg.blockOps ([.mk (.new site.id 0) 0 site.codeTarget, .mk (.new site.id 1) 0 site.rest] ++
        site.blocks') (.new site.id k) := by
  have hblocks : Cfg.blockOps site.blocks (.new site.id k) = none :=
    blockOps_eq_none fun block hblock ↦
      site.fresh_blocks block (List.mem_append_left _ hblock) k
  have hlabel : site.label ≠ .new site.id k := site.fresh_blocks _ site.block_mem_region k
  rw [target, List.append_assoc, blockOps_append, hblocks, Option.none_or, List.cons_append,
    blockOps_cons_of_ne hlabel]

theorem blockOps_body :
    Cfg.blockOps site.target (.new site.id 0) = some site.codeTarget := by
  rw [blockOps_new, List.cons_append, blockOps_cons_self]

theorem blockOps_after : Cfg.blockOps site.target (.new site.id 1) = some site.rest := by
  have hne : BlockId.new site.id 0 ≠ .new site.id 1 := by simp
  rw [blockOps_new, List.cons_append, blockOps_cons_of_ne hne, List.cons_append,
    blockOps_cons_self]

/-! ## Steps that are not the pattern's -/

theorem not_inside {level : Level} {op : Op OpId}
    (hname : level = .inside → ¬ op.name.IsTerminator) (hterm : op.name.IsTerminator) :
    level = .outside := by
  cases level with
  | outside => rfl
  | inside => exact absurd hterm (hname rfl)

theorem goto_match {label : BlockId OpId} (hlabel : ∀ k, label ≠ .new site.id k)
    {frames frames' : List Frame} (hframes : site.FramesMatch .outside frames frames') :
    Option.Rel (site.MovesMatch (V := V))
      ((Cfg.blockOps site.region label).map fun code ↦ ([], code, frames))
      ((Cfg.blockOps site.target (label.map site.rename)).map fun code ↦ ([], code, frames')) := by
  have hmatch := site.codeMatch_blockOps hlabel
  cases hregion : Cfg.blockOps site.region label <;>
    cases htarget : Cfg.blockOps site.target (label.map site.rename) <;>
    rw [hregion, htarget] at hmatch <;> cases hmatch
  · exact .none
  · rename_i hmatch
    exact .some ⟨rfl, .outside, hmatch, hframes⟩

theorem control_match (interp : Interp V S) {level : Level} {op : Op OpId}
    (hop : site.Untouched [op]) (hname : level = .inside → ¬ op.name.IsTerminator)
    {rest rest' : List (Op OpId)} (hrest : site.CodeMatch level rest rest')
    {frames frames' : List Frame} (hframes : site.FramesMatch level frames frames')
    (operands : List V) :
    Option.Rel site.MovesMatch (Mixed.control interp site.region op operands rest frames)
      (Mixed.control interp site.target (op.map site.rename) operands rest' frames') := by
  have hnested : ∀ region ∈ op.regions, site.Untouched (getBlock0 region) :=
    fun region hregion ↦ hop.block0 site hregion
  have henter : ∀ region ∈ op.regions,
      site.CodeMatch .outside (getBlock0 region) (getBlock0 (mapBlocks site.rename region)) := by
    intro region hregion
    rw [getBlock0_mapBlocks]
    exact .of_untouched site (hnested region hregion)
  have hsuccessors := (hop.plain site).successors
  unfold Mixed.control
  simp only [Op.name_map, Op.regions_map, Op.successors_map, map_origin_rename]
  cases hopName : op.name
  case cond_if =>
    rcases hregions : op.regions with _ | ⟨first, _ | ⟨second, _ | _⟩⟩ <;>
      rcases operands with _ | ⟨cond, _ | _⟩ <;> try exact .none
    refine .some ⟨rfl, .outside, ?_, .branch hrest hframes⟩
    dsimp only
    split
    · exact henter first (by simp [hregions])
    · exact henter second (by simp [hregions])
  case loop_while =>
    rcases hregions : op.regions with _ | ⟨eval, _ | ⟨region, _ | _⟩⟩ <;> try exact .none
    refine .some ⟨rfl, .outside, henter eval (by simp [hregions]), ?_⟩
    exact .loop (hnested eval (by simp [hregions])) (hnested region (by simp [hregions])) hrest
      hframes
  case «repeat» =>
    rcases hregions : op.regions with _ | ⟨region, _ | _⟩ <;> try exact .none
    refine .some ⟨rfl, .outside, henter region (by simp [hregions]), ?_⟩
    exact .repeatUntil (hnested region (by simp [hregions])) hrest hframes
  case «until» =>
    obtain rfl := not_inside hname (by rw [hopName]; decide)
    rcases hregions : op.regions with _ | ⟨eval, _ | _⟩ <;> try exact .none
    have hentered := henter eval (by simp [hregions])
    cases hframes with
    | repeatUntil hregion hafter hframes =>
      exact .some ⟨rfl, .outside, hentered, .repeatUntil hregion hafter hframes⟩
    | _ => exact .none
  case cond =>
    obtain rfl := not_inside hname (by rw [hopName]; decide)
    rcases operands with _ | ⟨cond, _ | _⟩ <;> try exact .none
    cases hframes with
    | @loop level _ _ _ _ _ _ heval hregion hafter hframes =>
      dsimp only
      split
      · refine .some ⟨rfl, .outside, ?_, .loop heval hregion hafter hframes⟩
        simpa only [getBlock0_mapBlocks] using CodeMatch.of_untouched site hregion
      · exact .some ⟨rfl, level, hafter, hframes⟩
    | @repeatUntil level _ _ _ _ _ hregion hafter hframes =>
      dsimp only
      split
      · exact .some ⟨rfl, level, hafter, hframes⟩
      · refine .some ⟨rfl, .outside, ?_, .repeatUntil hregion hafter hframes⟩
        simpa only [getBlock0_mapBlocks] using CodeMatch.of_untouched site hregion
    | _ => exact .none
  case «end» =>
    obtain rfl := not_inside hname (by rw [hopName]; decide)
    cases hframes with
    | @branch level _ _ _ _ hafter hframes => exact .some ⟨rfl, level, hafter, hframes⟩
    | loop heval hregion hafter hframes =>
      refine .some ⟨rfl, .outside, ?_, .loop heval hregion hafter hframes⟩
      simpa only [getBlock0_mapBlocks] using CodeMatch.of_untouched site heval
    | _ => exact .none
  case ret => exact .some ⟨rfl, .outside, .nil, .nil⟩
  case br =>
    obtain rfl := not_inside hname (by rw [hopName]; decide)
    rcases hlabels : op.successors with _ | ⟨dest, _ | _⟩ <;> try exact .none
    refine site.goto_match (fun k h ↦ ?_) hframes
    exact hsuccessors k (by simp [hlabels, h])
  case cond_br =>
    obtain rfl := not_inside hname (by rw [hopName]; decide)
    rcases operands with _ | ⟨cond, _ | _⟩ <;>
      rcases hlabels : op.successors with _ | ⟨trueDest, _ | ⟨falseDest, _ | _⟩⟩ <;>
      try exact .none
    by_cases htruthy : interp.truthy cond = true
    · simp only [List.map_cons, List.map_nil, htruthy, if_true]
      refine site.goto_match (fun k h ↦ ?_) hframes
      exact hsuccessors k (by simp [hlabels, h])
    · simp only [List.map_cons, List.map_nil, htruthy, Bool.false_eq_true, if_false]
      refine site.goto_match (fun k h ↦ ?_) hframes
      exact hsuccessors k (by simp [hlabels, h])
  all_goals exact .none

/-- An op that is executed on both sides. -/
theorem step_match (interp : Interp V S) {level : Level} {op : Op OpId}
    (hop : site.Untouched [op]) (hname : level = .inside → ¬ op.name.IsTerminator)
    {rest rest' : List (Op OpId)} (hrest : site.CodeMatch level rest rest')
    {frames frames' : List Frame} (hframes : site.FramesMatch level frames frames')
    {env env' : Value OpId → Option V} (henv : site.EnvMatch env env') (store : S) :
    Option.Rel (fun result result' ↦ result.1 = result'.1 ∧ site.Matches result.2 result'.2)
      (Mixed.step interp site.region ⟨op :: rest, frames, env, store⟩)
      (Mixed.step interp site.target ⟨op.map site.rename :: rest', frames', env', store⟩) := by
  have hplain := hop.plain site
  unfold Mixed.step
  simp only [henv.operands site hplain]
  cases op.operands.mapM env with
  | none => exact .none
  | some operands =>
    simp only [Option.bind_some, Mixed.execute, Op.name_map, Op.id_map, map_origin_rename]
    split
    · exact .some ⟨rfl, ⟨level, hrest, hframes⟩, henv.define site hplain.id _, rfl⟩
    · split
      · rcases operands with _ | ⟨cond, _ | _⟩ <;> try exact .none
        exact .some ⟨rfl, ⟨level, hrest, hframes⟩, henv.define site hplain.id _, rfl⟩
      · have hmove := site.control_match interp hop hname hrest hframes operands
        cases hcontrol : Mixed.control interp site.region op operands rest frames <;>
          cases hcontrol' :
            Mixed.control interp site.target (op.map site.rename) operands rest' frames' <;>
          rw [hcontrol, hcontrol'] at hmove <;> cases hmove
        · exact .none
        · rename_i hmove
          exact .some ⟨hmove.1, hmove.2, henv, rfl⟩

/-! ## Steps of the pattern -/

/-- The ops in front of the condition are entered without a step of the graph. -/
def rank (config : Config V S) : ℕ :=
  match config.code with
  | [] => 0
  | op :: _ => if op.name = .until then 1 else 0

theorem eval_head {op : Op OpId} {rest : List (Op OpId)} (heval : site.eval = op :: rest) :
    op.name ≠ .until := by
  have hop : op ∈ site.expression ++ [site.condOp] := by
    rw [← RepeatLoop.eval, heval]
    exact List.mem_cons_self
  rcases List.mem_append.mp hop with hop | hop
  · intro hname
    exact site.not_terminator op hop (by rw [hname]; decide)
  · rw [List.mem_singleton.mp hop]
    exact OpName.noConfusion

variable (interp : Interp V S) (env : Value OpId → Option V) (store : S) (frames : List Frame)

theorem step_loop :
    Mixed.step interp site.region ⟨site.op :: site.rest, frames, env, store⟩ =
      some ([], ⟨site.code, .repeatUntil [.mk (.entry site.id 0) 0 site.code] site.rest :: frames,
        env, store⟩) := rfl

theorem step_branch (code : List (Op OpId)) :
    Mixed.step interp site.target ⟨site.branch :: code, frames, env, store⟩ =
      some ([], ⟨site.codeTarget, frames, env, store⟩) := by
  change Option.map _ (Option.map _ (Cfg.blockOps site.target (.new site.id 0))) = _
  rw [blockOps_body]
  rfl

theorem step_until (region after : Region OpId) (rest code : List (Op OpId)) :
    Mixed.step interp after
        ⟨site.untilOp :: code, .repeatUntil region rest :: frames, env, store⟩ =
      some ([], ⟨site.eval, .repeatUntil region rest :: frames, env, store⟩) := rfl

/-- The values behind the conversion of the condition. -/
def converted (cond : V) : Value OpId → Option V :=
  Mixed.define (.new site.id 1) (fun _ ↦ interp.ofBool (interp.truthy cond)) env

theorem step_cond (after : Region OpId) (region : Region OpId) (rest : List (Op OpId)) :
    Mixed.step interp after
        ⟨[site.condOp], .repeatUntil region rest :: frames, env, store⟩ =
      (env site.cond).map fun cond ↦ ([.cond cond],
        if interp.truthy cond then ⟨rest, frames, env, store⟩
        else ⟨getBlock0 region, .repeatUntil region rest :: frames, env, store⟩) := by
  cases hcond : env site.cond with
  | none => simp [Mixed.step, RepeatLoop.condOp, hcond]
  | some cond =>
    simp only [Mixed.step, RepeatLoop.condOp, Op.operands_mk, List.mapM_cons, List.mapM_nil,
      hcond]
    change (if interp.truthy cond then some ([Event.cond cond], rest, frames)
      else some ([Event.cond cond], getBlock0 region, .repeatUntil region rest :: frames)).map _ = _
    rw [Option.map_some]
    split <;> rfl

theorem step_convert :
    Mixed.step interp site.target ⟨site.condTarget, frames, env, store⟩ =
      (env (site.cond.map site.rename)).map fun cond ↦ ([.cond cond],
        ⟨[CondBranchOp (.new site.id 2) (.res (.new site.id 1) 0) (.new site.id 1)
          (.new site.id 0)], frames, site.converted interp env cond, store⟩) := by
  cases hcond : env (site.cond.map site.rename) with
  | none => simp [Mixed.step, condTarget, create, hcond]
  | some cond =>
    simp only [Mixed.step, condTarget, create, Op.operands_mk, List.mapM_cons, List.mapM_nil,
      hcond]
    rfl

theorem step_condBranch (cond : V) :
    Mixed.step interp site.target
        ⟨[CondBranchOp (.new site.id 2) (.res (.new site.id 1) 0) (.new site.id 1)
          (.new site.id 0)], frames, site.converted interp env cond, store⟩ =
      some ([], ⟨if interp.truthy cond then site.rest else site.codeTarget, frames,
        site.converted interp env cond, store⟩) := by
  have hvalue : site.converted interp env cond (.res (.new site.id 1) 0) =
      some (interp.ofBool (interp.truthy cond)) := by
    simp [converted, Mixed.define, setResults]
  simp only [Mixed.step, CondBranchOp, Op.operands_mk, List.mapM_cons, List.mapM_nil, hvalue]
  change Option.map _ (Option.map _ (Cfg.blockOps site.target
    (if interp.truthy (interp.ofBool (interp.truthy cond)) then .new site.id 1
      else .new site.id 0))) = _
  rw [interp.truthy_ofBool]
  cases interp.truthy cond
  · simp only [Bool.false_eq_true, if_false, blockOps_body]
    rfl
  · simp only [if_true, blockOps_after]
    rfl

/-- The graph simulates the function with the loop. -/
theorem simulation :
    EventMachine.StutteringSimulation (Mixed.step interp site.region)
      (Mixed.step interp site.target) (site.Matches (V := V) (S := S)) rank := by
  constructor
  · rintro ⟨code, frames, env, store⟩ ⟨code', frames', env', store'⟩ events next hmatches hstep
    obtain ⟨⟨level, hcode, hframes⟩, henv, hstore⟩ := hmatches
    obtain rfl : store = store' := hstore
    cases hcode with
    | nil => cases hstep
    | cons hop hname hrest =>
      left
      have hmatch := site.step_match interp hop hname hrest hframes henv store
      rw [hstep] at hmatch
      cases hstep' : Mixed.step interp site.target ⟨_, frames', env', store⟩ with
      | none =>
        rw [hstep'] at hmatch
        cases hmatch
      | some result =>
        rw [hstep'] at hmatch
        cases hmatch with
        | some hmatch =>
          exact ⟨result.1, result.2, 0, rfl, by simpa using hmatch.1.symm, hmatch.2⟩
    | loop =>
      left
      rw [step_loop] at hstep
      obtain ⟨rfl, rfl⟩ := Prod.mk.inj (Option.some.inj hstep)
      refine ⟨[], _, 0, site.step_branch interp env' store frames' [], rfl, ?_⟩
      exact ⟨⟨.inside, site.codeMatch_code, .site hframes⟩, henv, rfl⟩
    | «until» =>
      right
      cases hframes with
      | site hframes =>
        rw [step_until] at hstep
        obtain ⟨rfl, rfl⟩ := Prod.mk.inj (Option.some.inj hstep)
        refine ⟨rfl, ⟨⟨.inside, site.codeMatch_eval, .site hframes⟩, henv, rfl⟩, ?_⟩
        cases heval : site.eval with
        | nil => simp [rank, heval, RepeatLoop.untilOp]
        | cons op rest => simp [rank, site.eval_head heval, RepeatLoop.untilOp]
    | cond =>
      left
      cases hframes with
      | site hframes =>
        have henv : site.EnvMatch env env' := henv
        rw [step_cond] at hstep
        obtain ⟨cond, hcond, hresult⟩ := Option.map_eq_some_iff.mp hstep
        obtain ⟨rfl, rfl⟩ := Prod.mk.inj hresult
        have hfresh : ¬ site.Created site.cond.owner :=
          (site.untouched_eval.mem site (List.mem_append_right _ List.mem_cons_self)
            |>.plain site).operands _ List.mem_cons_self
        have hconvert := site.step_convert interp env' store frames'
        rw [henv site.cond hfresh, hcond, Option.map_some] at hconvert
        refine ⟨[.cond cond], _, 1, hconvert, ?_, ?_⟩
        · rw [EventMachine.run_succ_of_some (site.step_condBranch interp env' store frames' cond)]
          rfl
        · rw [EventMachine.run_succ_of_some (site.step_condBranch interp env' store frames' cond)]
          have henv' : site.EnvMatch env (site.converted interp env' cond) :=
            henv.defineNew site 1 _
          cases interp.truthy cond
          · exact ⟨⟨.inside, site.codeMatch_code, .site hframes⟩, henv', rfl⟩
          · exact ⟨⟨.outside, site.codeMatch_rest, hframes⟩, henv', rfl⟩
  · rintro ⟨code, frames, env, store⟩ ⟨code', frames', env', store'⟩ hmatches hhalt
    obtain ⟨⟨level, hcode, hframes⟩, henv, hstore⟩ := hmatches
    obtain rfl : store = store' := hstore
    cases hcode with
    | nil => rfl
    | cons hop hname hrest =>
      have hmatch := site.step_match interp hop hname hrest hframes henv store
      rw [hhalt] at hmatch
      cases hstep' : Mixed.step interp site.target ⟨_, frames', env', store⟩ with
      | none => rfl
      | some result =>
        rw [hstep'] at hmatch
        cases hmatch
    | loop => cases hhalt
    | «until» =>
      cases hframes
      cases hhalt
    | cond =>
      cases hframes with
      | site hframes =>
        have henv : site.EnvMatch env env' := henv
        rw [step_cond] at hhalt
        change Mixed.step interp site.target ⟨site.condTarget, frames', env', store⟩ = none
        have hfresh : ¬ site.Created site.cond.owner :=
          (site.untouched_eval.mem site (List.mem_append_right _ List.mem_cons_self)
            |>.plain site).operands _ List.mem_cons_self
        rw [step_convert, henv site.cond hfresh, Option.map_eq_none_iff.mp hhalt]
        rfl

end RepeatSite

end DeclarativeMlir.Lua
