import DeclarativeMlir.Lua.StructuredLowering

/-!
# The order in which control flow is lowered

A pattern copies `getBlock(0)` of the regions of its op. As long as patterns are applied to ops
that lie in no other control-flow op, these regions have one block and the order among the ops
does not matter. A pattern applied inside a region splits its block, and a pattern applied to the
op around it then drops all but the first part.
-/

namespace DeclarativeMlir.Lua

open LocalExpansion Relation

/-! ## The driver -/

/-- A pattern is applied to an op inside `depth` control-flow ops. -/
inductive PatternStep : ℕ → Region OpId → Region OpId → Prop where
  | outermost {region region' : Region OpId} (hstep : LowerStep region region') :
      PatternStep 0 region region'
  | nested {depth : ℕ} {region region' : Region OpId} (blocks : Region OpId)
      (label : BlockId OpId) (numArgs : ℕ) (before : List (Op OpId)) (id : OpId) {name : OpName}
      (attr : Attr) (operands : List (Value OpId)) (numResults : ℕ)
      (successors : List (BlockId OpId)) (regions regions' : List (Region OpId))
      (rest : List (Op OpId)) (blocks' : Region OpId) (hname : name.IsControl ∨ name = .until)
      (hstep : PatternStep depth region region') :
      PatternStep (depth + 1)
        (blocks ++ .mk label numArgs (before ++ .mk id name attr operands numResults successors
          (regions ++ region :: regions') :: rest) :: blocks')
        (blocks ++ .mk label numArgs (before ++ .mk id name attr operands numResults successors
          (regions ++ region' :: regions') :: rest) :: blocks')

/-- Patterns are applied one after the other, at the given depths. -/
inductive CfExpand : List ℕ → Region OpId → Region OpId → Prop where
  | done (region : Region OpId) : CfExpand [] region region
  | step {depth depths} {region region' region'' : Region OpId}
      (hstep : PatternStep depth region region') (hrest : CfExpand depths region' region'') :
      CfExpand (depth :: depths) region region''

theorem CfExpand.lowering {depths : List ℕ} {region region' : Region OpId}
    (hexpand : CfExpand depths region region') (houtermost : ∀ depth ∈ depths, depth = 0) :
    ReflTransGen LowerStep region region' := by
  induction hexpand with
  | done region => exact .refl
  | step hstep hrest ih =>
    have hzero := houtermost _ List.mem_cons_self
    cases hstep with
    | outermost hstep => exact (ih fun d hd ↦ houtermost d (List.mem_cons_of_mem _ hd)).head hstep
    | nested => simp at hzero

/-! ## The ops of a nest -/

/-- A straight-line op or return: the source op it is a copy of, its name and its attribute. -/
abbrev Leaf := Option ℕ × OpName × Attr

/-- Names of ops that lowering takes apart or replaces. -/
def OpName.IsLowered (name : OpName) : Prop :=
  name ∈ [.numeric_for, .generic_for, .loop_while, .repeat, .cond_if, .until]

instance (name : OpName) : Decidable name.IsLowered :=
  inferInstanceAs (Decidable (name ∈ _))

theorem OpName.isLowered_iff {name : OpName} :
    name.IsLowered ↔ name.IsControl ∨ name = .until := by
  simp [IsLowered, IsControl, or_assoc]

mutual

/-- The leaves of `op`, at any depth of control flow. -/
def Op.leaves : Op OpId → List Leaf
  | .mk id name attr _ _ _ regions =>
    if name.IsLowered then leavesRegions regions
    else if name = .end ∨ name = .cond then []
    else [(id.source?, name, attr)]

def leavesRegions : List (Region OpId) → List Leaf
  | [] => []
  | region :: regions => leavesBlocks region ++ leavesRegions regions

def leavesBlocks : Region OpId → List Leaf
  | [] => []
  | block :: blocks => block.leaves ++ leavesBlocks blocks

def Blk.leaves : Blk OpId → List Leaf
  | .mk _ _ ops => leavesOps ops

def leavesOps : List (Op OpId) → List Leaf
  | [] => []
  | op :: ops => op.leaves ++ leavesOps ops

end

mutual

/-- A bound on the number of patterns that can be applied. -/
def Op.weight : Op OpId → ℕ
  | .mk _ name _ _ _ _ regions =>
    (if name = .numeric_for ∨ name = .generic_for then 2 else if name.IsLowered then 1 else 0) +
      weightRegions regions

def weightRegions : List (Region OpId) → ℕ
  | [] => 0
  | region :: regions => weightBlocks region + weightRegions regions

def weightBlocks : Region OpId → ℕ
  | [] => 0
  | block :: blocks => block.weight + weightBlocks blocks

def Blk.weight : Blk OpId → ℕ
  | .mk _ _ ops => weightOps ops

def weightOps : List (Op OpId) → ℕ
  | [] => 0
  | op :: ops => op.weight + weightOps ops

end

/-- The renaming turns ops into copies of themselves. -/
def KeepsSource (f : OpId → OpId) : Prop := ∀ op, (f op).source? = op.source?

mutual

theorem Op.leaves_subst {f : OpId → OpId} (hf : KeepsSource f) (v : Value OpId → Value OpId) :
    (op : Op OpId) → (op.subst f v).leaves = op.leaves
  | .mk id name attr operands numResults successors regions => by
    simp only [Op.subst, Op.leaves, leavesRegions_subst hf v regions, hf id]

theorem leavesRegions_subst {f : OpId → OpId} (hf : KeepsSource f)
    (v : Value OpId → Value OpId) : (regions : List (Region OpId)) →
      leavesRegions (substRegions f v regions) = leavesRegions regions
  | [] => rfl
  | region :: regions => by
    simp only [substRegions, leavesRegions, leavesBlocks_subst hf v region,
      leavesRegions_subst hf v regions]

theorem leavesBlocks_subst {f : OpId → OpId} (hf : KeepsSource f)
    (v : Value OpId → Value OpId) : (blocks : Region OpId) →
      leavesBlocks (substBlocks f v blocks) = leavesBlocks blocks
  | [] => rfl
  | block :: blocks => by
    simp only [substBlocks, leavesBlocks, Blk.leaves_subst hf v block,
      leavesBlocks_subst hf v blocks]

theorem Blk.leaves_subst {f : OpId → OpId} (hf : KeepsSource f) (v : Value OpId → Value OpId) :
    (block : Blk OpId) → (block.subst f v).leaves = block.leaves
  | .mk id numArgs ops => by simp only [Blk.subst, Blk.leaves, leavesOps_subst hf v ops]

theorem leavesOps_subst {f : OpId → OpId} (hf : KeepsSource f) (v : Value OpId → Value OpId) :
    (ops : List (Op OpId)) → leavesOps (substOps f v ops) = leavesOps ops
  | [] => rfl
  | op :: ops => by
    simp only [substOps, leavesOps, Op.leaves_subst hf v op, leavesOps_subst hf v ops]

end

mutual

theorem Op.weight_subst (f : OpId → OpId) (v : Value OpId → Value OpId) :
    (op : Op OpId) → (op.subst f v).weight = op.weight
  | .mk id name attr operands numResults successors regions => by
    simp only [Op.subst, Op.weight, weightRegions_subst f v regions]

theorem weightRegions_subst (f : OpId → OpId) (v : Value OpId → Value OpId) :
    (regions : List (Region OpId)) → weightRegions (substRegions f v regions) =
      weightRegions regions
  | [] => rfl
  | region :: regions => by
    simp only [substRegions, weightRegions, weightBlocks_subst f v region,
      weightRegions_subst f v regions]

theorem weightBlocks_subst (f : OpId → OpId) (v : Value OpId → Value OpId) :
    (blocks : Region OpId) → weightBlocks (substBlocks f v blocks) = weightBlocks blocks
  | [] => rfl
  | block :: blocks => by
    simp only [substBlocks, weightBlocks, Blk.weight_subst f v block,
      weightBlocks_subst f v blocks]

theorem Blk.weight_subst (f : OpId → OpId) (v : Value OpId → Value OpId) :
    (block : Blk OpId) → (block.subst f v).weight = block.weight
  | .mk id numArgs ops => by simp only [Blk.subst, Blk.weight, weightOps_subst f v ops]

theorem weightOps_subst (f : OpId → OpId) (v : Value OpId → Value OpId) :
    (ops : List (Op OpId)) → weightOps (substOps f v ops) = weightOps ops
  | [] => rfl
  | op :: ops => by
    simp only [substOps, weightOps, Op.weight_subst f v op, weightOps_subst f v ops]

end

@[simp]
theorem leavesOps_append (ops ops' : List (Op OpId)) :
    leavesOps (ops ++ ops') = leavesOps ops ++ leavesOps ops' := by
  induction ops with
  | nil => rfl
  | cons op ops ih => simp [leavesOps, ih]

@[simp]
theorem weightOps_append (ops ops' : List (Op OpId)) :
    weightOps (ops ++ ops') = weightOps ops + weightOps ops' := by
  induction ops with
  | nil => simp [weightOps]
  | cons op ops ih => simp [weightOps, ih, Nat.add_assoc]

/-! ## Well-formed nests -/

/-- An op whose control-flow regions, at any depth, are single blocks with their terminator. -/
inductive NestOp : Op OpId → Prop where
  | leaf {op} (hname : ¬ op.name.IsLowered) : NestOp op
  | condIf {first second term₁ term₂} (id attr cond numResults successors) (label₁ label₂)
      (numArgs₁ numArgs₂) (hfirst : ∀ op ∈ first, NestOp op) (hsecond : ∀ op ∈ second, NestOp op)
      (hterm₁ : term₁.name = .end ∨ term₁.name = .ret)
      (hterm₂ : term₂.name = .end ∨ term₂.name = .ret) :
      NestOp (.mk id .cond_if attr [cond] numResults successors
        [[.mk label₁ numArgs₁ (first ++ [term₁])], [.mk label₂ numArgs₂ (second ++ [term₂])]])
  | loopWhile {eval body term₁ term₂ cond} (id attr operands numResults successors)
      (label₁ label₂) (numArgs₁ numArgs₂) (heval : ∀ op ∈ eval, NestOp op)
      (hbody : ∀ op ∈ body, NestOp op) (hterm₁ : term₁.name = .cond)
      (hcond : term₁.operands = [cond]) (hterm₂ : term₂.name = .end) :
      NestOp (.mk id .loop_while attr operands numResults successors
        [[.mk label₁ numArgs₁ (eval ++ [term₁])], [.mk label₂ numArgs₂ (body ++ [term₂])]])
  | repeatUntil {body eval term cond} (id attr operands numResults successors) (label numArgs)
      (untilId untilAttr untilOperands untilResults untilSuccessors) (label' numArgs')
      (hbody : ∀ op ∈ body, NestOp op) (heval : ∀ op ∈ eval, NestOp op)
      (hterm : term.name = .cond) (hcond : term.operands = [cond]) :
      NestOp (.mk id .repeat attr operands numResults successors
        [[.mk label numArgs (body ++ [.mk untilId .until untilAttr untilOperands untilResults
          untilSuccessors [[.mk label' numArgs' (eval ++ [term])]]])]])
  | numericFor {body term} (id attr lower upper step numResults successors) (label numArgs)
      (hbody : ∀ op ∈ body, NestOp op) (hterm : term.name = .end) :
      NestOp (.mk id .numeric_for attr [lower, upper, step] numResults successors
        [[.mk label numArgs (body ++ [term])]])
  | genericFor {body term} (id param params f s var numResults successors) (label numArgs)
      (hbody : ∀ op ∈ body, NestOp op) (hterm : term.name = .end) :
      NestOp (.mk id .generic_for (.strs (param :: params)) [f, s, var] numResults successors
        [[.mk label numArgs (body ++ [term])]])

theorem Op.name_subst (f : OpId → OpId) (v : Value OpId → Value OpId) (op : Op OpId) :
    (op.subst f v).name = op.name := by
  cases op; rfl

theorem Op.operands_subst (f : OpId → OpId) (v : Value OpId → Value OpId) (op : Op OpId) :
    (op.subst f v).operands = op.operands.map v := by
  cases op; rfl

theorem substOps_append (f : OpId → OpId) (v : Value OpId → Value OpId) (ops ops' : List (Op OpId)) :
    substOps f v (ops ++ ops') = substOps f v ops ++ substOps f v ops' := by
  simp [substOps_eq_map]

/-- Copies of a nest are nests. -/
theorem NestOp.subst {op : Op OpId} (hop : NestOp op) (f : OpId → OpId)
    (v : Value OpId → Value OpId) : NestOp (op.subst f v) := by
  have hmap : ∀ {ops : List (Op OpId)}, (∀ op ∈ ops, NestOp (op.subst f v)) →
      ∀ op ∈ substOps f v ops, NestOp op := by
    intro ops hops op hop
    rw [substOps_eq_map, List.mem_map] at hop
    obtain ⟨op', hop', rfl⟩ := hop
    exact hops op' hop'
  induction hop with
  | leaf hname => exact .leaf (by rwa [Op.name_subst])
  | condIf id attr cond numResults successors label₁ label₂ numArgs₁ numArgs₂ hfirst hsecond
      hterm₁ hterm₂ ihfirst ihsecond =>
    simp only [Op.subst, substRegions, substBlocks, Blk.subst, substOps_append, substOps,
      List.map_cons, List.map_nil]
    exact .condIf _ _ _ _ _ _ _ _ _ (hmap ihfirst) (hmap ihsecond)
      (by simpa only [Op.name_subst] using hterm₁) (by simpa only [Op.name_subst] using hterm₂)
  | loopWhile id attr operands numResults successors label₁ label₂ numArgs₁ numArgs₂ heval hbody
      hterm₁ hcond hterm₂ iheval ihbody =>
    simp only [Op.subst, substRegions, substBlocks, Blk.subst, substOps_append, substOps]
    exact .loopWhile _ _ _ _ _ _ _ _ _ (hmap iheval) (hmap ihbody)
      (by rwa [Op.name_subst]) (by rw [Op.operands_subst, hcond]; rfl) (by rwa [Op.name_subst])
  | repeatUntil id attr operands numResults successors label numArgs untilId untilAttr
      untilOperands untilResults untilSuccessors label' numArgs' hbody heval hterm hcond ihbody
      iheval =>
    simp only [Op.subst, substRegions, substBlocks, Blk.subst, substOps_append, substOps]
    exact .repeatUntil _ _ _ _ _ _ _ _ _ _ _ _ _ _ (hmap ihbody) (hmap iheval)
      (by rwa [Op.name_subst]) (by rw [Op.operands_subst, hcond]; rfl)
  | numericFor id attr lower upper step numResults successors label numArgs hbody hterm ihbody =>
    simp only [Op.subst, substRegions, substBlocks, Blk.subst, substOps_append, substOps,
      List.map_cons, List.map_nil]
    exact .numericFor _ _ _ _ _ _ _ _ _ (hmap ihbody) (by rwa [Op.name_subst])
  | genericFor id param params g s var numResults successors label numArgs hbody hterm ihbody =>
    simp only [Op.subst, substRegions, substBlocks, Blk.subst, substOps_append, substOps,
      List.map_cons, List.map_nil]
    exact .genericFor _ _ _ _ _ _ _ _ _ _ (hmap ihbody) (by rwa [Op.name_subst])

/-! ## One pattern -/

/-- The ops an expansion puts into blocks. -/
def Expansion.ops (expansion : Expansion OpId) : List (Op OpId) :=
  expansion.inline ++ (expansion.split.map fun split ↦ split.1.flatMap Blk.ops).getD []

/-- A pattern keeps the leaves of its op, leaves a nest and lowers the weight. -/
structure Expansion.Sound (op : Op OpId) (expansion : Expansion OpId) : Prop where
  nest : ∀ op' ∈ expansion.ops, NestOp op'
  leaves : op.leaves ⊆ leavesOps expansion.ops
  weight : weightOps expansion.ops < op.weight

theorem keepsSource_cloneIds (ops : List (Op OpId)) : KeepsSource (cloneIds ops) := by
  intro op
  unfold cloneIds
  split <;> simp [Naming.clone, OpId.source?]

/-- `copyInto` renames the ops it copies. -/
theorem exists_copyInto (bvm : List (Value OpId × Value OpId)) (ops : List (Op OpId)) :
    ∃ f v, KeepsSource f ∧ copyInto none bvm ops = substOps f v ops := by
  have hfilter : ops.filter (fun op ↦ some op.name != none) = ops :=
    List.filter_eq_self.mpr fun _ _ ↦ rfl
  refine ⟨cloneIds ops, lookupOrDefault bvm ops, keepsSource_cloneIds ops, ?_⟩
  simp only [copyInto, hfilter]

theorem nest_substOps {ops : List (Op OpId)} (hops : ∀ op ∈ ops, NestOp op) (f : OpId → OpId)
    (v : Value OpId → Value OpId) : ∀ op ∈ substOps f v ops, NestOp op := by
  intro op hop
  rw [substOps_eq_map, List.mem_map] at hop
  obtain ⟨op', hop', rfl⟩ := hop
  exact (hops op' hop').subst f v

theorem NestOp.name_ne_until {op : Op OpId} (hop : NestOp op) : op.name ≠ .until := by
  cases hop with
  | leaf hname =>
    intro huntil
    exact hname (by rw [huntil]; decide)
  | _ => simp

theorem nest_append {ops ops' : List (Op OpId)} (hops : ∀ op ∈ ops, NestOp op)
    (hops' : ∀ op ∈ ops', NestOp op) : ∀ op ∈ ops ++ ops', NestOp op := by
  intro op hop
  rcases List.mem_append.mp hop with h | h
  · exact hops op h
  · exact hops' op h

theorem handleCondTerm_append {term : Op OpId} (hterm : term.name = .end ∨ term.name = .ret)
    {f : OpId → OpId} (hf : KeepsSource f) (v : Value OpId → Value OpId) (ops : List (Op OpId))
    (after : BlockId OpId) (branch : OpId) :
    ∃ term', handleCondTerm after branch (substOps f v (ops ++ [term])) =
        some (substOps f v ops ++ [term']) ∧
      NestOp term' ∧ term.leaves ⊆ term'.leaves ∧ term'.weight ≤ term.weight := by
  have hlast : substOps f v (ops ++ [term]) = substOps f v ops ++ [term.subst f v] := by
    simp [substOps_append, substOps]
  rw [hlast]
  rcases hterm with hname | hname
  · refine ⟨BranchOp branch after, ?_, .leaf (by simp only [name_BranchOp]; decide), ?_, ?_⟩
    · simp [handleCondTerm, Op.name_subst, hname]
    · cases term
      obtain rfl := hname
      simp [Op.leaves, OpName.IsLowered]
    · simp [BranchOp, Op.weight, weightRegions, OpName.IsLowered]
  · refine ⟨term.subst f v, ?_, .leaf ?_, ?_, ?_⟩
    · simp [handleCondTerm, Op.name_subst, hname]
    · rw [Op.name_subst, hname]
      decide
    · rw [Op.leaves_subst hf]
      exact fun _ h ↦ h
    · rw [Op.weight_subst]

theorem lowerCond_append (convert branch : OpId) (trueDest falseDest : BlockId OpId)
    (ops : List (Op OpId)) {term : Op OpId} {cond : Value OpId} (hcond : term.operands = [cond]) :
    lowerCond convert branch trueDest falseDest (ops ++ [term]) =
      some (ops ++ [create convert .convert_bool_like [cond] 1,
        CondBranchOp branch (.res convert 0) trueDest falseDest]) := by
  simp [lowerCond, hcond]

theorem leaves_of_name {op : Op OpId} (hname : op.name = .end ∨ op.name = .cond) :
    op.leaves = [] := by
  cases op
  rcases hname with h | h <;> obtain rfl := h <;> simp [Op.leaves, OpName.IsLowered]

theorem Expansion.Sound.condIf {first second : List (Op OpId)} {term₁ term₂ : Op OpId}
    (id attr cond numResults successors) (label₁ label₂ numArgs₁ numArgs₂)
    (hfirst : ∀ op ∈ first, NestOp op) (hsecond : ∀ op ∈ second, NestOp op)
    (hterm₁ : term₁.name = .end ∨ term₁.name = .ret)
    (hterm₂ : term₂.name = .end ∨ term₂.name = .ret) {op : Op OpId}
    (hop : op = .mk id .cond_if attr [cond] numResults successors
      [[.mk label₁ numArgs₁ (first ++ [term₁])], [.mk label₂ numArgs₂ (second ++ [term₂])]]) :
    ∃ expansion, lower op = some expansion ∧ expansion.Sound op := by
  obtain ⟨f₁, v₁, hf₁, hcopy₁⟩ := exists_copyInto [] (first ++ [term₁])
  obtain ⟨f₂, v₂, hf₂, hcopy₂⟩ := exists_copyInto [] (second ++ [term₂])
  obtain ⟨term₁', hhandle₁, hnest₁, hleaves₁, hweight₁⟩ := handleCondTerm_append hterm₁ hf₁ v₁ first
    (.new id 2) (Naming.new id 2)
  obtain ⟨term₂', hhandle₂, hnest₂, hleaves₂, hweight₂⟩ := handleCondTerm_append hterm₂ hf₂ v₂ second
    (.new id 2) (Naming.new id 3)
  refine ⟨_, by
    simp only [hop, lower, Op.name_mk, lowerCondIf, getBlock0, Blk.ops, hcopy₁, hcopy₂, hhandle₁,
      hhandle₂, Option.bind_eq_bind, Option.bind_some]
    rfl, ?_, ?_, ?_⟩
  · simp only [Expansion.ops, Option.map_some, Option.getD_some, List.flatMap_cons,
      List.flatMap_nil, Blk.ops, List.append_nil]
    refine nest_append ?_ (nest_append (nest_append (nest_substOps hfirst f₁ v₁) ?_)
      (nest_append (nest_substOps hsecond f₂ v₂) ?_))
    · simp only [List.mem_cons, List.not_mem_nil, or_false, forall_eq_or_imp, forall_eq]
      exact ⟨.leaf (by simp only [name_create]; decide),
        .leaf (by simp only [name_CondBranchOp]; decide)⟩
    · simpa using hnest₁
    · simpa using hnest₂
  · have hleaves : op.leaves = leavesOps first ++ (term₁.leaves ++ (leavesOps second ++
        term₂.leaves)) := by
      simp [hop, Op.leaves, leavesRegions, leavesBlocks, Blk.leaves, leavesOps, OpName.IsLowered]
    intro leaf hleaf
    simp only [hleaves, List.mem_append] at hleaf
    simp only [Expansion.ops, Option.map_some, Option.getD_some, List.flatMap_cons,
      List.flatMap_nil, Blk.ops, List.append_nil, leavesOps_append, leavesOps,
      leavesOps_subst hf₁, leavesOps_subst hf₂, List.mem_append]
    rcases hleaf with h | h | h | h
    · exact .inr (.inl (.inl h))
    · exact .inr (.inl (.inr (hleaves₁ h)))
    · exact .inr (.inr (.inl h))
    · exact .inr (.inr (.inr (hleaves₂ h)))
  · have hweight : op.weight = 1 + (weightOps first + term₁.weight + (weightOps second +
        term₂.weight)) := by
      simp [hop, Op.weight, weightRegions, weightBlocks, Blk.weight, weightOps, OpName.IsLowered]
    simp only [Expansion.ops, Option.map_some, Option.getD_some, List.flatMap_cons,
      List.flatMap_nil, Blk.ops, List.append_nil, weightOps_append, weightOps, weightOps_subst,
      hweight]
    simp only [create, CondBranchOp, Op.weight, weightRegions]
    simp [OpName.IsLowered]
    omega

theorem copyInto_append_term (ops : List (Op OpId)) (term : Op OpId)
    (bvm : List (Value OpId × Value OpId)) :
    ∃ f v, KeepsSource f ∧
      copyInto none bvm (ops ++ [term]) = substOps f v ops ++ [term.subst f v] := by
  obtain ⟨f, v, hf, hcopy⟩ := exists_copyInto bvm (ops ++ [term])
  exact ⟨f, v, hf, by rw [hcopy, substOps_append]; rfl⟩

theorem nest_of_names {ops : List (Op OpId)} (hops : ∀ op ∈ ops, ¬ op.name.IsLowered) :
    ∀ op ∈ ops, NestOp op :=
  fun op hop ↦ .leaf (hops op hop)

theorem Expansion.Sound.loopWhile {eval body : List (Op OpId)} {term₁ term₂ : Op OpId}
    {cond : Value OpId} (id attr operands numResults successors) (label₁ label₂ numArgs₁ numArgs₂)
    (heval : ∀ op ∈ eval, NestOp op) (hbody : ∀ op ∈ body, NestOp op)
    (hterm₁ : term₁.name = .cond) (hcond : term₁.operands = [cond])
    (hterm₂ : term₂.name = .end) {op : Op OpId}
    (hop : op = .mk id .loop_while attr operands numResults successors
      [[.mk label₁ numArgs₁ (eval ++ [term₁])], [.mk label₂ numArgs₂ (body ++ [term₂])]]) :
    ∃ expansion, lower op = some expansion ∧ expansion.Sound op := by
  obtain ⟨f₁, v₁, hf₁, hcopy₁⟩ := copyInto_append_term eval term₁ []
  obtain ⟨f₂, v₂, hf₂, hcopy₂⟩ := copyInto_append_term body term₂ []
  have hoperands : (term₁.subst f₁ v₁).operands = [v₁ cond] := by
    rw [Op.operands_subst, hcond]
    rfl
  refine ⟨_, by
    simp only [hop, lower, Op.name_mk, lowerLoopWhile, getBlock0, Blk.ops, hcopy₁, hcopy₂,
      lowerCond_append _ _ _ _ _ hoperands, List.dropLast_concat, Option.bind_eq_bind,
      Option.bind_some]
    rfl, ?_, ?_, ?_⟩
  · simp only [Expansion.ops, Option.map_some, Option.getD_some, List.flatMap_cons,
      List.flatMap_nil, Blk.ops, List.append_nil]
    refine nest_append (nest_of_names ?_) (nest_append (nest_append (nest_substOps heval f₁ v₁)
      (nest_of_names ?_)) (nest_append (nest_substOps hbody f₂ v₂) (nest_of_names ?_)))
    · simp [OpName.IsLowered]
    · simp [OpName.IsLowered]
    · simp [OpName.IsLowered]
  · have hleaves : op.leaves = leavesOps eval ++ leavesOps body := by
      simp [hop, Op.leaves, leavesRegions, leavesBlocks, Blk.leaves, leavesOps, OpName.IsLowered,
        leaves_of_name (.inl hterm₂), leaves_of_name (.inr hterm₁)]
    intro leaf hleaf
    simp only [hleaves, List.mem_append] at hleaf
    simp only [Expansion.ops, Option.map_some, Option.getD_some, List.flatMap_cons,
      List.flatMap_nil, Blk.ops, List.append_nil, leavesOps_append, leavesOps_subst hf₁,
      leavesOps_subst hf₂, List.mem_append]
    rcases hleaf with h | h
    · exact .inr (.inl (.inl h))
    · exact .inr (.inr (.inl h))
  · have hweight : op.weight = 1 + (weightOps eval + term₁.weight + (weightOps body +
        term₂.weight)) := by
      simp [hop, Op.weight, weightRegions, weightBlocks, Blk.weight, weightOps, OpName.IsLowered]
    simp only [Expansion.ops, Option.map_some, Option.getD_some, List.flatMap_cons,
      List.flatMap_nil, Blk.ops, List.append_nil, weightOps_append, weightOps, weightOps_subst,
      hweight]
    simp only [create, BranchOp, CondBranchOp, Op.weight, weightRegions]
    simp [OpName.IsLowered]
    omega

theorem Expansion.Sound.repeatUntil {body eval : List (Op OpId)} {term : Op OpId}
    {cond : Value OpId} (id attr operands numResults successors label numArgs)
    (untilId untilAttr untilOperands untilResults untilSuccessors label' numArgs')
    (hbody : ∀ op ∈ body, NestOp op) (heval : ∀ op ∈ eval, NestOp op)
    (hterm : term.name = .cond) (hcond : term.operands = [cond]) {op : Op OpId}
    (hop : op = .mk id .repeat attr operands numResults successors
      [[.mk label numArgs (body ++ [.mk untilId .until untilAttr untilOperands untilResults
        untilSuccessors [[.mk label' numArgs' (eval ++ [term])]]])]]) :
    ∃ expansion, lower op = some expansion ∧ expansion.Sound op := by
  obtain ⟨until_, huntil⟩ : ∃ until_ : Op OpId, until_ = .mk untilId .until untilAttr
    untilOperands untilResults untilSuccessors [[.mk label' numArgs' (eval ++ [term])]] := ⟨_, rfl⟩
  rw [← huntil] at hop
  have hregions : until_.regions = [[.mk label' numArgs' (eval ++ [term])]] := by rw [huntil]; rfl
  obtain ⟨f, v, hf, hcopy⟩ := copyInto_append_term eval term []
  have hoperands : (term.subst f v).operands = [v cond] := by
    rw [Op.operands_subst, hcond]
    rfl
  have hfilter : (body ++ [until_]).filter (fun op ↦ some op.name != some OpName.until) = body := by
    have hkeep : body.filter (fun op ↦ some op.name != some OpName.until) = body :=
      List.filter_eq_self.mpr fun op hmem ↦ by simpa using (hbody op hmem).name_ne_until
    rw [List.filter_append, hkeep]
    simp [huntil]
  have hcopyBody : copyInto (some .until) [] (body ++ [until_]) =
      substOps (cloneIds body) (lookupOrDefault [] body) body := by
    simp only [copyInto, hfilter]
  have hfind : (body ++ [until_]).find? (fun op ↦ op.name == .until) = some until_ := by
    have hnone : body.find? (fun op ↦ op.name == .until) = none :=
      List.find?_eq_none.mpr fun op hmem ↦ by simpa using (hbody op hmem).name_ne_until
    simp [List.find?_append, hnone, huntil]
  refine ⟨_, by
    simp only [hop, lower, Op.name_mk, lowerRepeatUntil, List.flatMap_cons, List.flatMap_nil,
      List.append_nil, getBlock0, Blk.ops, hfind, Option.bind_eq_bind, Option.bind_some,
      hregions, List.head?_cons, hcopyBody, hcopy, ← List.append_assoc,
      lowerCond_append _ _ _ _ _ hoperands]
    rfl, ?_, ?_, ?_⟩
  · simp only [Expansion.ops, Option.map_some, Option.getD_some, List.flatMap_cons,
      List.flatMap_nil, Blk.ops, List.append_nil]
    refine nest_append (nest_of_names ?_) (nest_append (nest_append (nest_substOps hbody _ _)
      (nest_substOps heval f v)) (nest_of_names ?_))
    · simp [OpName.IsLowered]
    · simp [OpName.IsLowered]
  · have hleaves : op.leaves = leavesOps body ++ leavesOps eval := by
      simp [hop, huntil, Op.leaves, leavesRegions, leavesBlocks, Blk.leaves, leavesOps,
        OpName.IsLowered, leaves_of_name (.inr hterm)]
    intro leaf hleaf
    simp only [hleaves, List.mem_append] at hleaf
    simp only [Expansion.ops, Option.map_some, Option.getD_some, List.flatMap_cons,
      List.flatMap_nil, Blk.ops, List.append_nil, leavesOps_append, leavesOps_subst hf,
      leavesOps_subst (keepsSource_cloneIds body), List.mem_append]
    rcases hleaf with h | h
    · exact .inr (.inl (.inl h))
    · exact .inr (.inl (.inr h))
  · have hweight : op.weight = 1 + (weightOps body + (1 + (weightOps eval + term.weight))) := by
      simp [hop, huntil, Op.weight, weightRegions, weightBlocks, Blk.weight, weightOps,
        OpName.IsLowered]
    simp only [Expansion.ops, Option.map_some, Option.getD_some, List.flatMap_cons,
      List.flatMap_nil, Blk.ops, List.append_nil, weightOps_append, weightOps, weightOps_subst,
      hweight]
    simp only [create, BranchOp, CondBranchOp, Op.weight, weightRegions]
    simp [OpName.IsLowered]
    omega

theorem Expansion.Sound.numericFor {body : List (Op OpId)} {term : Op OpId}
    (id attr lower_ upper step numResults successors label numArgs)
    (hbody : ∀ op ∈ body, NestOp op) (hterm : term.name = .end) {op : Op OpId}
    (hop : op = .mk id .numeric_for attr [lower_, upper, step] numResults successors
      [[.mk label numArgs (body ++ [term])]]) :
    ∃ expansion, lower op = some expansion ∧ expansion.Sound op := by
  obtain ⟨f, v, hf, hcopy⟩ := copyInto_append_term body term
    [(.arg (.entry id 0) 0, .res (Naming.new id 2) 0)]
  refine ⟨_, by
    simp only [hop, lower, Op.name_mk, lowerNumericFor, getBlock0, Blk.ops, hcopy,
      insertBeforeTerminator, List.dropLast_concat, List.getLast?_concat, Option.toList_some]
    rfl, ?_, ?_, ?_⟩
  · simp only [Expansion.ops, Option.map_none, Option.getD_none, List.append_nil,
      List.mem_cons, List.not_mem_nil, or_false, forall_eq_or_imp, forall_eq]
    refine ⟨.leaf (by simp [OpName.IsLowered]), .leaf (by simp [OpName.IsLowered]),
      .leaf (by simp [OpName.IsLowered]), ?_⟩
    refine @NestOp.loopWhile [_] _ _ _ _ _ _ _ _ _ _ _ _ _ (nest_of_names (by simp [OpName.IsLowered]))
      (nest_append (nest_substOps hbody f v) (nest_of_names (by simp [OpName.IsLowered]))) rfl rfl
      (by rw [Op.name_subst, hterm])
  · have hleaves : op.leaves = leavesOps body := by
      simp [hop, Op.leaves, leavesRegions, leavesBlocks, Blk.leaves, leavesOps,
        OpName.IsLowered, leaves_of_name (.inl hterm)]
    intro leaf hleaf
    rw [hleaves] at hleaf
    simp [Expansion.ops, leavesOps, Op.leaves, leavesRegions, leavesBlocks, Blk.leaves,
      OpName.IsLowered, leavesOps_subst hf, hleaf]
  · have hweight : op.weight = 2 + (weightOps body + term.weight) := by
      simp [hop, Op.weight, weightRegions, weightBlocks, Blk.weight, weightOps]
    simp [Expansion.ops, weightOps, Op.weight, weightRegions, weightBlocks, Blk.weight, create,
      OpName.IsLowered, weightOps_subst, Op.weight_subst, hweight]

theorem Expansion.Sound.genericFor {body : List (Op OpId)} {term : Op OpId}
    (id param params g s var numResults successors label numArgs)
    (hbody : ∀ op ∈ body, NestOp op) (hterm : term.name = .end) {op : Op OpId}
    (hop : op = .mk id .generic_for (.strs (param :: params)) [g, s, var] numResults successors
      [[.mk label numArgs (body ++ [term])]]) :
    ∃ expansion, lower op = some expansion ∧ expansion.Sound op := by
  obtain ⟨f, v, hf, hcopy⟩ := copyInto_append_term body term
    ((List.range (param :: params).length).map fun i ↦
      (Value.arg (.entry id 0) i, Value.res (Naming.new id 3) i))
  have hcopies : weightOps ((List.range (param :: params).length).map fun i ↦
      create (Naming.new id (11 + i)) .copy
        [.res (Naming.new id 3) i, .res (Naming.new id 10) i] 0) = 0 := by
    induction List.range (param :: params).length with
    | nil => rfl
    | cons i range ih =>
      rw [List.map_cons, weightOps, ih]
      simp [create, Op.weight, weightRegions, OpName.IsLowered]
  refine ⟨_, by
    simp only [hop, lower, Op.name_mk, lowerGenericFor, getBlock0, Blk.ops, hcopy,
      insertBeforeTerminator, List.dropLast_concat, List.getLast?_concat, Option.toList_some]
    rfl, ?_, ?_, ?_⟩
  · simp only [Expansion.ops, Option.map_none, Option.getD_none, List.append_nil,
      List.mem_cons, List.not_mem_nil, or_false, forall_eq_or_imp, forall_eq]
    refine ⟨.leaf (by simp [OpName.IsLowered, makeConcat]), .leaf (by simp [OpName.IsLowered]),
      .leaf (by simp [OpName.IsLowered]), .leaf (by simp [OpName.IsLowered]), ?_⟩
    refine @NestOp.loopWhile [_, _] _ _ _ _ _ _ _ _ _ _ _ _ _
      (nest_of_names (by simp [OpName.IsLowered]))
      (nest_append (nest_substOps hbody f v) (nest_append (nest_of_names ?_) (nest_of_names ?_)))
      rfl rfl (by rw [Op.name_subst, hterm])
    · simp [OpName.IsLowered, makeConcat]
    · simp [OpName.IsLowered]
  · have hleaves : op.leaves = leavesOps body := by
      simp [hop, Op.leaves, leavesRegions, leavesBlocks, Blk.leaves, leavesOps,
        OpName.IsLowered, leaves_of_name (.inl hterm)]
    intro leaf hleaf
    rw [hleaves] at hleaf
    simp [Expansion.ops, leavesOps, Op.leaves, leavesRegions, leavesBlocks, Blk.leaves,
      OpName.IsLowered, leavesOps_subst hf, hleaf]
  · have hweight : op.weight = 2 + (weightOps body + term.weight) := by
      simp [hop, Op.weight, weightRegions, weightBlocks, Blk.weight, weightOps]
    simp only [List.length_cons] at hcopies
    simp [Expansion.ops, weightOps, Op.weight, weightRegions, weightBlocks, Blk.weight, create,
      makeConcat, OpName.IsLowered, weightOps_subst, Op.weight_subst, hweight] at hcopies ⊢
    omega

/-- A pattern applies to every control-flow op of a nest. -/
theorem NestOp.exists_expansion {op : Op OpId} (hop : NestOp op) (hname : op.name.IsControl) :
    ∃ expansion, lower op = some expansion ∧ expansion.Sound op := by
  cases hop with
  | leaf hleaf => exact absurd (OpName.isLowered_iff.mpr (.inl hname)) hleaf
  | condIf id attr cond numResults successors label₁ label₂ numArgs₁ numArgs₂ hfirst hsecond
      hterm₁ hterm₂ =>
    exact Expansion.Sound.condIf id attr cond numResults successors label₁ label₂ numArgs₁ numArgs₂ hfirst
      hsecond hterm₁ hterm₂ rfl
  | loopWhile id attr operands numResults successors label₁ label₂ numArgs₁ numArgs₂ heval hbody
      hterm₁ hcond hterm₂ =>
    exact Expansion.Sound.loopWhile id attr operands numResults successors label₁ label₂ numArgs₁ numArgs₂ heval
      hbody hterm₁ hcond hterm₂ rfl
  | repeatUntil id attr operands numResults successors label numArgs untilId untilAttr
      untilOperands untilResults untilSuccessors label' numArgs' hbody heval hterm hcond =>
    exact Expansion.Sound.repeatUntil id attr operands numResults successors label numArgs untilId untilAttr
      untilOperands untilResults untilSuccessors label' numArgs' hbody heval hterm hcond rfl
  | numericFor id attr lower_ upper step numResults successors label numArgs hbody hterm =>
    exact Expansion.Sound.numericFor id attr lower_ upper step numResults successors label numArgs hbody hterm rfl
  | genericFor id param params g s var numResults successors label numArgs hbody hterm =>
    exact Expansion.Sound.genericFor id param params g s var numResults successors label numArgs hbody hterm rfl

theorem isControl_of_lower {op : Op OpId} {expansion : Expansion OpId}
    (hlower : lower op = some expansion) : op.name.IsControl := by
  by_contra hname
  have hnone := expandLine_of_not_isControl hname
  simp [expandLine, hlower] at hnone

theorem NestOp.sound {op : Op OpId} (hop : NestOp op) {expansion : Expansion OpId}
    (hlower : lower op = some expansion) : expansion.Sound op := by
  obtain ⟨expansion', hlower', hsound⟩ := hop.exists_expansion (isControl_of_lower hlower)
  obtain rfl : expansion' = expansion := by simpa [hlower'] using hlower
  exact hsound

/-! ## Runs of the driver -/

/-- Every op of every block is the root of a nest. -/
def Nest (region : Region OpId) : Prop := ∀ block ∈ region, ∀ op ∈ block.ops, NestOp op

def regionOps (region : Region OpId) : List (Op OpId) := region.flatMap Blk.ops

theorem regionOps_splice (expansion : Expansion OpId) (label : BlockId OpId) (numArgs : ℕ)
    (before rest : List (Op OpId)) :
    regionOps (expansion.splice label numArgs before rest) = before ++ (expansion.ops ++ rest) := by
  unfold Expansion.splice Expansion.ops regionOps
  rcases expansion.split with _ | ⟨blocks, after⟩ <;> simp [Blk.ops]

theorem nest_iff {region : Region OpId} : Nest region ↔ ∀ op ∈ regionOps region, NestOp op := by
  simp only [Nest, regionOps, List.mem_flatMap]
  exact ⟨fun h op ⟨block, hblock, hop⟩ ↦ h block hblock op hop,
    fun h block hblock op hop ↦ h op ⟨block, hblock, hop⟩⟩

/-- One outermost pattern keeps the nest and its leaves. -/
theorem LowerStep.nest {region region' : Region OpId} (hstep : LowerStep region region')
    (hnest : Nest region) :
    Nest region' ∧ leavesOps (regionOps region) ⊆ leavesOps (regionOps region') := by
  obtain ⟨blocks, label, numArgs, before, rest, blocks', hlower⟩ := hstep
  rename_i op expansion
  have hops : regionOps (blocks ++ .mk label numArgs (before ++ op :: rest) :: blocks') =
      regionOps blocks ++ (before ++ ([op] ++ (rest ++ regionOps blocks'))) := by
    simp [regionOps, Blk.ops]
  have hops' : regionOps (blocks ++ expansion.splice label numArgs before rest ++ blocks') =
      regionOps blocks ++ (before ++ (expansion.ops ++ (rest ++ regionOps blocks'))) := by
    have hsplice := regionOps_splice expansion label numArgs before rest
    simp only [regionOps, List.flatMap_append] at hsplice ⊢
    simp [hsplice]
  rw [nest_iff, hops] at hnest
  rw [nest_iff, hops, hops']
  have hsound := (hnest op (by simp)).sound hlower
  constructor
  · intro op' hop'
    simp only [List.mem_append] at hop' hnest
    rcases hop' with h | h | h | h
    · exact hnest op' (.inl h)
    · exact hnest op' (.inr (.inl h))
    · exact hsound.nest op' h
    · exact hnest op' (.inr (.inr (.inr h)))
  · intro leaf hleaf
    simp only [leavesOps_append, List.mem_append] at hleaf ⊢
    rcases hleaf with h | h | h | h
    · exact .inl h
    · exact .inr (.inl h)
    · exact .inr (.inr (.inl (hsound.leaves (by simpa [leavesOps] using h))))
    · exact .inr (.inr (.inr h))

theorem lowering_nest {region region' : Region OpId}
    (hsteps : ReflTransGen LowerStep region region') (hnest : Nest region) :
    Nest region' ∧ leavesOps (regionOps region) ⊆ leavesOps (regionOps region') := by
  induction hsteps with
  | refl => exact ⟨hnest, fun _ h ↦ h⟩
  | tail _ hstep ih =>
    obtain ⟨hnest', hleaves⟩ := ih
    obtain ⟨hnest'', hleaves'⟩ := hstep.nest hnest'
    exact ⟨hnest'', fun _ h ↦ hleaves' (hleaves h)⟩

theorem Nest.terminal_iff {region : Region OpId} (hnest : Nest region) :
    Terminal expandLine (lines region) ↔ Lowered region := by
  refine ⟨fun hterminal block hblock op hop hname ↦ ?_, Lowered.terminal⟩
  obtain ⟨expansion, hlower, -⟩ := (hnest block hblock op hop).exists_expansion hname
  have hnone := hterminal (.op op) (mem_lines.mpr ⟨block, hblock, hop⟩)
  simp [expandLine, hlower] at hnone

def Line.IsNest : Line OpId → Prop
  | .label _ _ => True
  | .op op' => NestOp op'

def Line.weight : Line OpId → ℕ
  | .label _ _ => 0
  | .op op' => op'.weight

theorem sum_weight_ops (ops : List (Op OpId)) :
    ((ops.map Line.op).map Line.weight).sum = weightOps ops := by
  induction ops with
  | nil => rfl
  | cons op ops ih =>
    rw [List.map_cons, List.map_cons, List.sum_cons, ih]
    rfl

theorem sum_weight_lines (region : Region OpId) :
    ((lines region).map Line.weight).sum = weightOps (regionOps region) := by
  induction region with
  | nil => rfl
  | cons block region ih =>
    obtain ⟨label, numArgs, ops⟩ := block
    have hregion : regionOps (.mk label numArgs ops :: region) = ops ++ regionOps region := by
      simp [regionOps, Blk.ops]
    rw [lines_cons, hregion, weightOps_append, List.map_cons, List.sum_cons, List.map_append,
      List.sum_append, sum_weight_ops, ih]
    exact Nat.zero_add _

theorem Expansion.sum_weight (expansion : Expansion OpId) :
    (expansion.lines.map Line.weight).sum = weightOps expansion.ops := by
  obtain ⟨inline, _ | ⟨blocks, after⟩⟩ := expansion
  · simp only [Expansion.lines, Expansion.ops, List.append_nil, Option.map_none, Option.getD_none,
      sum_weight_ops]
  · have hafter : ([Line.label after 0].map Line.weight).sum = 0 := rfl
    simp only [Expansion.lines, Expansion.ops, List.map_append, List.sum_append, sum_weight_ops,
      sum_weight_lines, hafter, Option.map_some, Option.getD_some, weightOps_append, regionOps,
      Nat.add_zero]

theorem Expansion.op_mem_lines {expansion : Expansion OpId} {op : Op OpId}
    (hop : Line.op op ∈ expansion.lines) : op ∈ expansion.ops := by
  obtain ⟨inline, _ | ⟨blocks, after⟩⟩ := expansion
  · simpa [Expansion.lines, Expansion.ops] using hop
  · simpa [Expansion.lines, Expansion.ops, mem_lines, List.mem_flatMap] using hop

theorem Line.isNest_expansion {line : Line OpId} (hline : line.IsNest)
    {symbols : List (Line OpId)} (hexpand : expandLine line = some symbols) :
    (∀ line' ∈ symbols, line'.IsNest) ∧ (symbols.map Line.weight).sum < line.weight := by
  cases line with
  | label => simp [expandLine] at hexpand
  | op op =>
    obtain ⟨expansion, hlower, rfl⟩ := Option.map_eq_some_iff.mp hexpand
    have hsound := NestOp.sound hline hlower
    refine ⟨fun line' hline' ↦ ?_, by rw [expansion.sum_weight]; exact hsound.weight⟩
    cases line' with
    | label => trivial
    | op op' => exact hsound.nest op' (Expansion.op_mem_lines hline')

/-- A nest can be lowered outermost first to the end. -/
theorem Nest.exists_lowered {region : Region OpId} (hnest : Nest region) :
    ∃ graph, ReflTransGen LowerStep region graph ∧ Lowered graph := by
  have hlines : ∀ line ∈ lines region, line.IsNest := by
    intro line hline
    cases line with
    | label => trivial
    | op op =>
      obtain ⟨block, hblock, hop⟩ := mem_lines.mp hline
      exact hnest block hblock op hop
  obtain ⟨u, hu, -⟩ :=
    exists_normal expandLine Line.IsNest Line.weight
      (fun hline hexpand ↦ Line.isNest_expansion hline hexpand) hlines
  obtain ⟨graph, hsteps, rfl⟩ := exists_lowering hu.1
  exact ⟨graph, hsteps, (lowering_nest hsteps hnest).1.terminal_iff.mp hu.2⟩

theorem lines_injective : Function.Injective (lines : Region OpId → List (Line OpId)) := by
  intro region region' hlines
  induction region generalizing region' with
  | nil =>
    rcases region' with _ | ⟨⟨label, numArgs, ops⟩, region'⟩
    · rfl
    · simp [lines, Blk.lines] at hlines
  | cons block region ih =>
    obtain ⟨label, numArgs, ops⟩ := block
    rcases region' with _ | ⟨⟨label', numArgs', ops'⟩, region'⟩
    · simp [lines, Blk.lines] at hlines
    · rw [lines_cons, lines_cons, List.cons.injEq, Line.label.injEq] at hlines
      obtain ⟨⟨rfl, rfl⟩, hrest⟩ := hlines
      have hops := congrArg headOps hrest
      rw [headOps_block, headOps_block] at hops
      subst hops
      rw [ih (List.append_cancel_left hrest)]

/-- The op is a copy of the leaf. -/
def Op.IsCopyOf (op : Op OpId) (leaf : Leaf) : Prop := (op.id.source?, op.name, op.attr) = leaf

theorem mem_leaves_of_lowered {region : Region OpId} (hnest : Nest region)
    (hlowered : Lowered region) {leaf : Leaf} (hleaf : leaf ∈ leavesOps (regionOps region)) :
    ∃ block ∈ region, ∃ op ∈ block.ops, op.IsCopyOf leaf := by
  have hflat : ∀ op ∈ regionOps region, ¬ op.name.IsLowered := by
    intro op hop hname
    obtain ⟨block, hblock, hmem⟩ := List.mem_flatMap.mp hop
    rcases OpName.isLowered_iff.mp hname with hcontrol | huntil
    · exact hlowered block hblock op hmem hcontrol
    · exact (hnest block hblock op hmem).name_ne_until huntil
  have hsearch : ∀ ops : List (Op OpId), (∀ op ∈ ops, ¬ op.name.IsLowered) →
      leaf ∈ leavesOps ops → ∃ op ∈ ops, op.IsCopyOf leaf := by
    intro ops hops hmem
    induction ops with
    | nil => simp [leavesOps] at hmem
    | cons op ops ih =>
      rw [leavesOps, List.mem_append] at hmem
      rcases hmem with hmem | hmem
      · refine ⟨op, List.mem_cons_self, ?_⟩
        have hname := hops op List.mem_cons_self
        cases op
        simp only [Op.name_mk] at hname
        simp only [Op.leaves, if_neg hname] at hmem
        split at hmem
        · simp at hmem
        · exact (List.mem_singleton.mp hmem).symm
      · obtain ⟨op', hop', hcopy⟩ := ih (fun op h ↦ hops op (List.mem_cons_of_mem _ h)) hmem
        exact ⟨op', List.mem_cons_of_mem _ hop', hcopy⟩
  obtain ⟨op, hop, hcopy⟩ := hsearch _ hflat hleaf
  obtain ⟨block, hblock, hmem⟩ := List.mem_flatMap.mp hop
  exact ⟨block, hblock, op, hmem, hcopy⟩

/-- When every pattern is applied outermost, the driver can finish, the graph it ends with does
not depend on the order, and no op of the nest is lost. -/
theorem cfExpand_outermost {region : Region OpId} (hnest : Nest region) :
    (∃ depths graph, CfExpand depths region graph ∧ (∀ depth ∈ depths, depth = 0) ∧
      Lowered graph) ∧
    ∀ depths graph, CfExpand depths region graph → (∀ depth ∈ depths, depth = 0) →
      Lowered graph →
      (∀ depths' graph', CfExpand depths' region graph' → (∀ depth ∈ depths', depth = 0) →
        Lowered graph' → graph' = graph) ∧
      ∀ leaf ∈ leavesOps (regionOps region),
        ∃ block ∈ graph, ∃ op ∈ block.ops, op.IsCopyOf leaf := by
  constructor
  · obtain ⟨graph, hsteps, hlowered⟩ := hnest.exists_lowered
    have hdepths : ∃ depths, CfExpand depths region graph ∧ ∀ depth ∈ depths, depth = 0 := by
      clear hlowered hnest
      induction hsteps using ReflTransGen.head_induction_on with
      | refl => exact ⟨[], .done _, by simp⟩
      | head hstep _ ih =>
        obtain ⟨depths, hexpand, hzero⟩ := ih
        exact ⟨0 :: depths, .step (.outermost hstep) hexpand, by simpa using hzero⟩
    obtain ⟨depths, hexpand, hzero⟩ := hdepths
    exact ⟨depths, graph, hexpand, hzero, hlowered⟩
  · intro depths graph hexpand hzero hlowered
    have hsteps := hexpand.lowering hzero
    obtain ⟨hnest', hleaves⟩ := lowering_nest hsteps hnest
    constructor
    · intro depths' graph' hexpand' hzero' hlowered'
      have hnormal : Normal expandLine (lines region) (lines graph) :=
        ⟨lowering_lines hsteps, hlowered.terminal⟩
      have hnormal' : Normal expandLine (lines region) (lines graph') :=
        ⟨lowering_lines (hexpand'.lowering hzero'), hlowered'.terminal⟩
      exact lines_injective (hnormal'.unique hnormal)
    · intro leaf hleaf
      exact mem_leaves_of_lowered hnest' hlowered (hleaves hleaf)

/-- `for i = v, v, v do if v then end; f() end` -/
def ifThenCall : Region OpId :=
  let v : Value ℕ := .res 1 0
  source [.mk (.entry 0 0) 0 [
    .mk 1 .nil .none [] 1 [] [],
    .mk 2 .numeric_for (.str "i") [v, v, v] 0 [] [[.mk (.entry 2 0) 1 [
      .mk 3 .cond_if .none [v] 0 []
        [[.mk (.entry 3 0) 0 [.mk 4 .end .none [] 0 [] []]],
          [.mk (.entry 3 1) 0 [.mk 5 .end .none [] 0 [] []]]],
      .mk 6 .call .none [v, v] 1 [] [],
      .mk 7 .end .none [] 0 [] []]]],
    .mk 8 .ret (.segments 0 0) [] 0 [] []]]

theorem nest_ifThenCall : Nest ifThenCall := by
  rw [nest_iff]
  change ∀ op ∈ [_, _, _], NestOp op
  simp only [List.mem_cons, List.not_mem_nil, or_false, forall_eq_or_imp, forall_eq]
  refine ⟨.leaf (by decide), @NestOp.numericFor [_, _] _ _ _ _ _ _ _ _ _ _ ?_ rfl,
    .leaf (by decide)⟩
  simp only [List.mem_cons, List.not_mem_nil, or_false, forall_eq_or_imp, forall_eq]
  exact ⟨@NestOp.condIf [] [] _ _ _ _ _ _ _ _ _ _ _ (by simp) (by simp) (.inl rfl)
    (.inl rfl), .leaf (by decide)⟩

instance (region : Region OpId) : Decidable (Lowered region) :=
  inferInstanceAs (Decidable (∀ block ∈ region, ∀ op ∈ block.ops, ¬ op.name.IsControl))

instance (op : Op OpId) (leaf : Leaf) : Decidable (op.IsCopyOf leaf) :=
  inferInstanceAs (Decidable (_ = _))

theorem cfExpand_outermost_ifThenCall :
    ∃ depths graph, CfExpand depths ifThenCall graph ∧ Lowered graph ∧
      ∃ block ∈ graph, ∃ op ∈ block.ops, op.IsCopyOf (some 6, .call, .none) := by
  obtain ⟨⟨depths, graph, hexpand, hzero, hlowered⟩, hall⟩ := cfExpand_outermost nest_ifThenCall
  exact ⟨depths, graph, hexpand, hlowered,
    (hall depths graph hexpand hzero hlowered).2 _ (by decide)⟩

/-- Lowering the `lua.cond_if` before the loop around it loses the call. -/
theorem cfExpand_innermost_loses_call :
    Nest ifThenCall ∧ ∃ depths graph, CfExpand depths ifThenCall graph ∧ Lowered graph ∧
      ∃ leaf ∈ leavesOps (regionOps ifThenCall),
        ¬ ∃ block ∈ graph, ∃ op ∈ block.ops, op.IsCopyOf leaf := by
  refine ⟨nest_ifThenCall, [1, 0, 0], _,
    .step (.nested [] _ _ [_] _ _ _ _ _ [] [] [_] [] (.inl (by decide))
      (.outermost (.mk [] _ _ [] [_, _] [] rfl)))
    (.step (.outermost (.mk [] _ _ [_] [_] [] rfl))
      (.step (.outermost (.mk [] _ _ [_, _, _, _] [_] [] rfl)) (.done _))),
    ?_, (some 6, .call, .none), ?_, ?_⟩
  · decide
  · decide
  · decide

end DeclarativeMlir.Lua
