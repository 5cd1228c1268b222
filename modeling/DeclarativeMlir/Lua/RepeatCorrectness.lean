import DeclarativeMlir.Lua.RepeatRuns

/-!
# Correctness of the lowering of `lua.repeat`

The two copies that `lowerRepeatUntil` makes are one copy of the body and the condition exactly if
the condition uses no value of the body.
-/

namespace DeclarativeMlir.Lua

section

variable {ι κ : Type} (f : ι → κ) (v : Value ι → Value κ)

theorem mapOps_append (ops ops' : List (Op ι)) :
    mapOps f (ops ++ ops') = mapOps f ops ++ mapOps f ops' := by
  simp [mapOps, substOps_eq_map]

end

/-- Without given values, a copy has new names for the ops in it. -/
theorem copyInto_nil (ops : List (Op OpId)) :
    copyInto none [] ops = mapOps (cloneIds ops) ops := by
  have hfilter : ops.filter (fun op ↦ some op.name != none) = ops :=
    List.filter_eq_self.mpr fun _ _ ↦ rfl
  have hlookup : lookupOrDefault [] ops = Value.map (cloneIds ops) := by
    funext value
    simp [lookupOrDefault]
  simp only [copyInto, hfilter, hlookup, mapOps]

namespace RepeatSite

variable (site : RepeatSite)

/-- The condition uses no value of the body. -/
def Independent : Prop :=
  ∀ op ∈ walkOps site.eval, ∀ value ∈ op.operands, value.owner ∉ defsOps site.body

/-! ## The copies -/

theorem defsOps_code : defsOps site.code = defsOps site.body ++ site.untilOp.defs := by
  rw [RepeatLoop.code, defsOps_append, defsOps, defsOps, List.append_nil]

theorem defs_untilOp : site.untilOp.defs = site.untilId :: defsOps site.eval := by
  simp [RepeatLoop.untilOp, Op.defs, defsRegions, defsBlocks, Blk.defs]

theorem defs_op : site.op.defs = site.id :: defsOps site.code := by
  simp [RepeatLoop.op, Op.defs, defsRegions, defsBlocks, Blk.defs]

theorem cloneIds_congr {ops ops' : List (Op OpId)} {x : OpId}
    (h : x ∈ defsOps ops ↔ x ∈ defsOps ops') : cloneIds ops x = cloneIds ops' x := by
  simp only [cloneIds, h]

theorem mapOps_congr {f g : OpId → OpId} {ops : List (Op OpId)}
    (hlabels : ∀ x ∈ labelsOps ops, f x = g x)
    (hoperands : ∀ op ∈ walkOps ops, ∀ value ∈ op.operands, f value.owner = g value.owner) :
    mapOps f ops = mapOps g ops :=
  substOps_congr ops ⟨hlabels, fun op hop value hvalue ↦
    Value.map_congr (hoperands op hop value hvalue)⟩

theorem rename_of_body {x : OpId} (hx : x ∉ site.untilOp.defs) :
    cloneIds site.body x = site.rename x := by
  apply cloneIds_congr
  simp [defsOps_code, hx]

theorem rename_of_eval {x : OpId} (huntil : x ≠ site.untilId) (hbody : x ∉ defsOps site.body) :
    cloneIds site.eval x = site.rename x := by
  apply cloneIds_congr
  simp [defsOps_code, defs_untilOp, huntil, hbody]

theorem rename_of_both {x : OpId} (huntil : x ≠ site.untilId) :
    cloneIds (site.body ++ site.eval) x = site.rename x := by
  apply cloneIds_congr
  simp [defsOps_code, defs_untilOp, defsOps_append, huntil]

theorem map_body : mapOps (cloneIds site.body) site.body = mapOps site.rename site.body := by
  refine mapOps_congr (fun x hx ↦ site.rename_of_body (site.body_labels x hx)) ?_
  intro op hop value hvalue
  apply site.rename_of_body
  intro hmem
  exact site.body_uses op hop value hvalue (.tail _ hmem)

theorem map_eval (hindependent : site.Independent) :
    mapOps (cloneIds site.eval) site.eval = mapOps site.rename site.eval := by
  refine mapOps_congr (fun x hx ↦ ?_) (fun op hop value hvalue ↦ ?_)
  · have hlabel := site.eval_labels x hx
    rw [List.mem_cons, not_or] at hlabel
    exact site.rename_of_eval hlabel.1 hlabel.2
  · have huse := site.eval_uses op hop value hvalue
    simp only [List.mem_cons, List.not_mem_nil, or_false, not_or] at huse
    exact site.rename_of_eval huse.2 (hindependent op hop value hvalue)

/-- One copy of the body and the condition renames as `rename` does. -/
theorem map_both :
    mapOps (cloneIds (site.body ++ site.eval)) (site.body ++ site.eval) =
      mapOps site.rename (site.body ++ site.eval) := by
  have hbody : mapOps (cloneIds (site.body ++ site.eval)) site.body =
      mapOps site.rename site.body := by
    refine mapOps_congr (fun x hx ↦ site.rename_of_both ?_) fun op hop value hvalue ↦
      site.rename_of_both ?_
    · rintro rfl
      exact site.body_labels _ hx (site.defs_untilOp ▸ List.mem_cons_self)
    · intro huntil
      apply site.body_uses op hop value hvalue
      rw [huntil, site.defs_untilOp]
      exact .tail _ List.mem_cons_self
  have heval : mapOps (cloneIds (site.body ++ site.eval)) site.eval =
      mapOps site.rename site.eval := by
    refine mapOps_congr (fun x hx ↦ site.rename_of_both ?_) fun op hop value hvalue ↦
      site.rename_of_both ?_
    · rintro rfl
      exact site.eval_labels _ hx List.mem_cons_self
    · intro huntil
      apply site.eval_uses op hop value hvalue
      rw [huntil]
      exact .tail _ List.mem_cons_self
  rw [mapOps_append, hbody, heval, mapOps_append]

/-! ## The expansion -/

/-- The end of the block of the loop, with the condition renamed by `f`. -/
def decision (f : OpId → OpId) : List (Op OpId) :=
  [create (.new site.id 1) .convert_bool_like [site.cond.map f] 1,
    CondBranchOp (.new site.id 2) (.res (.new site.id 1) 0) (.new site.id 1) (.new site.id 0)]

theorem mapOps_eval (f : OpId → OpId) :
    mapOps f site.eval = mapOps f site.expression ++ [site.condOp.map f] := by
  rw [RepeatLoop.eval, mapOps_append]
  rfl

theorem lowerCopied_eq (f : OpId → OpId) (copied : List (Op OpId)) :
    site.lowerCopied (copied ++ mapOps f site.eval) =
      some (copied ++ mapOps f site.expression ++ site.decision f) := by
  rw [mapOps_eval, ← List.append_assoc, RepeatLoop.lowerCopied, lowerCond_append _ _ _ _ _ rfl]
  rfl

/-- The block of the loop that the two copies give. -/
def copies : List (Op OpId) :=
  mapOps (cloneIds site.body) site.body ++
    mapOps (cloneIds site.eval) site.expression ++ site.decision (cloneIds site.eval)

def expansion : Expansion OpId where
  inline := [site.branch]
  split := some ([.mk (.new site.id 0) 0 site.copies], .new site.id 1)

theorem copyInto_code :
    copyInto (some .until) [] site.code = mapOps (cloneIds site.body) site.body := by
  have hkeep : site.body.filter (fun op ↦ some op.name != some OpName.until) = site.body := by
    refine List.filter_eq_self.mpr fun op hop ↦ ?_
    have hname : op.name ≠ .until := by
      intro hname
      exact (site.straight op hop).not_isTerminator (by rw [hname]; decide)
    simpa using hname
  have hall : site.body.filter (fun op ↦ some op.name != none) = site.body :=
    List.filter_eq_self.mpr fun _ _ ↦ rfl
  have hfilter : site.code.filter (fun op ↦ some op.name != some OpName.until) =
      site.body.filter (fun op ↦ some op.name != none) := by
    rw [RepeatLoop.code, List.filter_append, hkeep, hall]
    simp [RepeatLoop.untilOp]
  calc
    copyInto (some .until) [] site.code = copyInto none [] site.body := by
      simp only [copyInto, hfilter]
    _ = mapOps (cloneIds site.body) site.body := copyInto_nil site.body

theorem lowerRepeatUntil_eq : lowerRepeatUntil site.op = some site.expansion := by
  have hnone : site.body.find? (fun op ↦ op.name == .until) = none := by
    refine List.find?_eq_none.mpr fun op hop ↦ ?_
    have hname : op.name ≠ .until := by
      intro hname
      exact (site.straight op hop).not_isTerminator (by rw [hname]; decide)
    simpa using hname
  have hfind : site.code.find? (fun op ↦ op.name == .until) = some site.untilOp := by
    rw [RepeatLoop.code, List.find?_append, hnone]
    rfl
  have heval : copyInto none [] (getBlock0 [.mk (.entry site.untilId 0) 0 site.eval]) =
      mapOps (cloneIds site.eval) site.eval := copyInto_nil site.eval
  have hlowered := site.lowerCopied_eq (cloneIds site.eval)
    (mapOps (cloneIds site.body) site.body)
  rw [RepeatLoop.lowerCopied] at hlowered
  simp only [RepeatLoop.op, lowerRepeatUntil, List.flatMap_cons, List.flatMap_nil,
    List.append_nil, Blk.ops, hfind, Option.bind_eq_bind, Option.bind_some]
  change (lowerCond _ _ _ _ (copyInto (some .until) [] site.code ++
    copyInto none [] (getBlock0 [.mk (.entry site.untilId 0) 0 site.eval]))).bind _ = _
  rw [copyInto_code, heval]
  change (lowerCond (.new site.id 1) (.new site.id 2) (.new site.id 1) (.new site.id 0) _).bind _ = _
  rw [hlowered]
  rfl

theorem lowered_eq :
    site.lowered site.expansion = site.blocks ++
      [.mk site.label site.numArgs (site.before ++ [site.branch]),
        .mk (.new site.id 0) 0 site.copies, .mk (.new site.id 1) 0 site.rest] ++ site.blocks' := by
  simp [RepeatLoop.lowered, Expansion.splice, expansion]

theorem copies_eq (hindependent : site.Independent) : site.copies = site.codeTarget := by
  have heval := site.map_eval hindependent
  rw [mapOps_eval, mapOps_eval] at heval
  obtain ⟨hexpression, hcond⟩ := List.append_inj' heval rfl
  have hvalue : site.cond.map (cloneIds site.eval) = site.cond.map site.rename := by
    have hoperands := congrArg (fun ops ↦ ops.flatMap Op.operands) hcond
    simpa [RepeatLoop.condOp] using hoperands
  calc
    site.copies = mapOps site.rename site.body ++ mapOps site.rename site.expression ++
        site.decision (cloneIds site.eval) := by
      rw [copies, site.map_body, hexpression]
    _ = mapOps site.rename site.body ++ mapOps site.rename site.expression ++
        site.condTarget := by
      rw [decision, hvalue, condTarget]
    _ = site.codeTarget := List.append_assoc _ _ _

theorem lowered_eq_target (hindependent : site.Independent) :
    site.lowered site.expansion = site.target := by
  rw [lowered_eq, site.copies_eq hindependent, target]

/-! ## Uses of erased values -/

theorem not_created_of_mem {x : OpId} (hx : x ∈ site.op.defs) : ¬ site.Created x :=
  site.fresh_labels x (site.op_labels_subset (Op.defs_subset_labels _ hx))

theorem rename_notMem {x : OpId} (hx : x ≠ site.id) : site.rename x ∉ site.op.defs := by
  by_cases hmem : x ∈ defsOps site.code
  · rw [site.rename_of_mem hmem]
    exact fun h ↦ site.not_created_of_mem h hmem
  · rw [site.rename_of_notMem hmem, defs_op, List.mem_cons, not_or]
    exact ⟨hx, hmem⟩

theorem mem_walkOps_mapOps {f : OpId → OpId} {ops : List (Op OpId)} {op : Op OpId} :
    op ∈ walkOps (mapOps f ops) ↔ ∃ op' ∈ walkOps ops, op'.map f = op := by
  rw [mapOps, walkOps_subst, List.mem_map]
  rfl

/-- The walk over the blocks that the pattern leaves, with `copies` in the block of the loop. -/
theorem mem_walk_lowered {copies : List (Op OpId)} {op : Op OpId} :
    op ∈ walkBlocks (site.blocks ++
      [.mk site.label site.numArgs (site.before ++ [site.branch]),
        .mk (.new site.id 0) 0 copies, .mk (.new site.id 1) 0 site.rest] ++ site.blocks') ↔
      op ∈ walkBlocks site.context ∨ op = site.branch ∨ op ∈ walkOps copies := by
  have hbranch : walkOps [site.branch] = [site.branch] := rfl
  simp only [RepeatLoop.context, walkBlocks_eq_flatMap, List.flatMap_append, List.flatMap_cons,
    List.flatMap_nil, List.append_nil, Blk.walk, walkOps_append, hbranch, List.mem_append,
    List.mem_singleton]
  tauto

theorem no_erased_target :
    ∀ op ∈ walkBlocks site.target, ∀ value ∈ op.operands, value.owner ∉ site.op.defs := by
  have hcopied : ∀ ops, (∀ op ∈ walkOps ops, ∀ value ∈ op.operands, value.owner ≠ site.id) →
      ∀ op ∈ walkOps (mapOps site.rename ops), ∀ value ∈ op.operands,
        value.owner ∉ site.op.defs := by
    intro ops hops op hop value hvalue
    obtain ⟨op', hop', rfl⟩ := mem_walkOps_mapOps.mp hop
    rw [Op.operands_map] at hvalue
    obtain ⟨value', hvalue', rfl⟩ := List.mem_map.mp hvalue
    rw [Value.owner_map]
    exact site.rename_notMem (hops op' hop' value' hvalue')
  have hbody : ∀ op ∈ walkOps site.body, ∀ value ∈ op.operands, value.owner ≠ site.id :=
    fun op hop value hvalue h ↦ site.body_uses op hop value hvalue (h ▸ List.mem_cons_self)
  have heval : ∀ op ∈ walkOps site.eval, ∀ value ∈ op.operands, value.owner ≠ site.id :=
    fun op hop value hvalue h ↦ site.eval_uses op hop value hvalue (h ▸ List.mem_cons_self)
  intro op hop value hvalue
  rw [target, mem_walk_lowered, codeTarget, evalTarget, walkOps_append, walkOps_append,
    List.mem_append, List.mem_append] at hop
  rcases hop with hop | rfl | hop | hop | hop
  · exact site.context_uses op hop value hvalue
  · cases hvalue
  · exact hcopied site.body hbody op hop value hvalue
  · refine hcopied site.expression (fun op hop ↦ heval op ?_) op hop value hvalue
    rw [RepeatLoop.eval, walkOps_append]
    exact List.mem_append_left _ hop
  · have hcond : site.cond.owner ≠ site.id := by
      refine heval site.condOp ?_ _ List.mem_cons_self
      rw [RepeatLoop.eval, walkOps_append]
      exact List.mem_append_right _ List.mem_cons_self
    have hoperand : value = site.cond.map site.rename ∨ value = .res (.new site.id 1) 0 := by
      simp only [condTarget, create, CondBranchOp, walkOps, Op.walk, walkRegions,
        List.mem_append, List.mem_cons, List.not_mem_nil, or_false] at hop
      rcases hop with rfl | rfl
      · exact .inl (List.mem_singleton.mp hvalue)
      · exact .inr (List.mem_singleton.mp hvalue)
    rcases hoperand with rfl | rfl
    · rw [Value.owner_map]
      exact site.rename_notMem hcond
    · exact fun h ↦ site.not_created_of_mem h rfl

theorem independent_of_no_erased (hlowered : ∀ op ∈ walkBlocks (site.lowered site.expansion),
    ∀ value ∈ op.operands, value.owner ∉ site.op.defs) : site.Independent := by
  intro op hop value hvalue hbody
  have hlabel : value.owner ∉ defsOps site.eval := by
    intro heval
    apply site.body_labels _ (defsOps_subset_labels _ hbody)
    rw [defs_untilOp]
    exact .tail _ heval
  have hfixed : (value.map (cloneIds site.eval)).owner = value.owner := by
    simp [cloneIds, hlabel]
  have herased : (value.map (cloneIds site.eval)).owner ∈ site.op.defs := by
    rw [hfixed, defs_op, defsOps_code]
    exact .tail _ (List.mem_append_left _ hbody)
  have hcopies : ∀ op ∈ walkOps site.copies, ∀ value ∈ op.operands,
      value.owner ∉ site.op.defs := by
    intro op hop
    apply hlowered
    rw [lowered_eq, mem_walk_lowered]
    exact .inr (.inr hop)
  rw [RepeatLoop.eval, walkOps_append, List.mem_append] at hop
  rcases hop with hop | hop
  · refine hcopies (op.map (cloneIds site.eval)) ?_ _ ?_ herased
    · rw [copies, walkOps_append, walkOps_append]
      exact List.mem_append_left _ (List.mem_append_right _
        (mem_walkOps_mapOps.mpr ⟨op, hop, rfl⟩))
    · rw [Op.operands_map]
      exact List.mem_map_of_mem hvalue
  · obtain rfl : op = site.condOp := List.mem_singleton.mp hop
    obtain rfl : value = site.cond := List.mem_singleton.mp hvalue
    refine hcopies (create (.new site.id 1) .convert_bool_like
      [site.cond.map (cloneIds site.eval)] 1) ?_ _ List.mem_cons_self herased
    rw [copies, walkOps_append]
    exact List.mem_append_right _ List.mem_cons_self

/-! ## The result -/

theorem one_mapping (hindependent : site.Independent) :
    ∃ ops, site.lowerCopied (copyInto none [] (site.body ++ site.eval)) = some ops ∧
      site.expansion.split = some ([.mk (.new site.id 0) 0 ops], .new site.id 1) := by
  refine ⟨site.copies, ?_, rfl⟩
  rw [copyInto_nil, map_both, mapOps_append, lowerCopied_eq, site.copies_eq hindependent,
    codeTarget, evalTarget, List.append_assoc]
  rfl

theorem matches_enter {V S : Type} {block : Blk OpId} (hblock : block ∈ site.region)
    (env : Value OpId → Option V) (store : S)
    (henv : ∀ value, site.Created value.owner ∨ value.owner ∈ site.op.defs → env value = none) :
    site.Matches (Mixed.enter site.region block.id env store)
      (Mixed.enter site.target block.id env store) := by
  have hlabel : block.id.map site.rename = block.id := by
    calc
      block.id.map site.rename = block.id.map fun x ↦ x :=
        BlockId.map_congr (site.rename_of_notMem (site.region_owner hblock))
      _ = block.id := congrFun BlockId.map_id block.id
  have hcode := site.codeMatch_blockOps (site.fresh_blocks block hblock)
  rw [hlabel] at hcode
  refine ⟨⟨.outside, ?_, .nil⟩, fun value hvalue ↦ ?_, rfl⟩
  · simp only [Mixed.enter]
    cases hregion : Cfg.blockOps site.region block.id <;>
      cases htarget : Cfg.blockOps site.target block.id <;>
      rw [hregion, htarget] at hcode <;> cases hcode
    · exact .nil
    · assumption
  · by_cases hmem : value.owner ∈ defsOps site.code
    · have hclone : site.Created (value.map site.rename).owner := by
        rw [Value.owner_map, site.rename_of_mem hmem]
        exact hmem
      calc
        env (value.map site.rename) = none := henv _ (.inl hclone)
        _ = env value := (henv value (.inr (site.defsOps_code_subset hmem))).symm
    · have hfixed : value.map site.rename = value := by
        calc
          value.map site.rename = value.map fun x ↦ x :=
            Value.map_congr (site.rename_of_notMem hmem)
          _ = value := congrFun Value.map_id value
      exact congrArg env hfixed

/-- `lowerRepeatUntil` keeps the meaning of a loop exactly if the condition uses no value of the
body. -/
theorem repeatUntil_correct_iff :
    (∃ expansion, lowerRepeatUntil site.op = some expansion ∧ site.Correct expansion) ↔
      site.Independent := by
  constructor
  · rintro ⟨expansion, hlower, hcorrect⟩
    rw [lowerRepeatUntil_eq, Option.some.injEq] at hlower
    exact site.independent_of_no_erased (hlower ▸ hcorrect.no_erased)
  · intro hindependent
    have htarget := site.lowered_eq_target hindependent
    refine ⟨site.expansion, site.lowerRepeatUntil_eq, ?_, site.one_mapping hindependent, ?_⟩
    · rw [htarget]
      exact site.no_erased_target
    · intro V S interp block hblock env store henv
      rw [htarget]
      exact (site.simulation interp).sameRuns (site.matches_enter hblock env store henv)

/-- `repeat local x = f() until x` -/
def repeatLocal : RepeatLoop where
  blocks := []
  label := .entry (.src 0) 0
  numArgs := 0
  before := [create (.src 1) .alloc [] 1]
  id := .src 2
  attr := .none
  body := [makeConcat (.src 3) [] [], create (.src 4) .call [.res (.src 1) 0, .res (.src 3) 0] 1,
    create (.src 5) .unpack [.res (.src 4) 0] 1]
  untilId := .src 6
  untilAttr := .none
  expression := []
  condId := .src 7
  condAttr := .none
  cond := .res (.src 5) 0
  rest := [.mk (.src 8) .ret (.segments 0 0) [] 0 [] []]
  blocks' := []

def repeatLocalSite : RepeatSite where
  toRepeatLoop := repeatLocal
  straight := by decide
  not_terminator := by decide
  context_labels := by decide
  context_uses := by decide
  body_labels := by decide
  body_uses := by decide
  eval_labels := by decide
  eval_uses := by decide
  fresh_labels := by decide
  fresh_uses := by decide
  fresh_successors op hop k := by
    have hnone : ∀ op ∈ walkBlocks repeatLocal.region, op.successors = [] := by decide
    rw [hnone op hop]
    exact List.not_mem_nil
  fresh_blocks block hblock k := by
    have hentry : ∀ block ∈ repeatLocal.region, block.id = .entry (.src 0) 0 := by decide
    rw [hentry block hblock]
    exact fun h ↦ nomatch h

/-- The condition keeps the value of the erased `lua.unpack`. -/
theorem repeatUntil_not_correct :
    ¬ ∃ expansion, lowerRepeatUntil repeatLocalSite.op = some expansion ∧
      repeatLocalSite.Correct expansion := by
  rintro ⟨expansion, hlower, hcorrect⟩
  rw [lowerRepeatUntil_eq, Option.some.injEq] at hlower
  have hindependent := repeatLocalSite.independent_of_no_erased (hlower ▸ hcorrect.no_erased)
  have hcond : repeatLocal.condOp ∈ walkOps repeatLocal.eval := List.mem_cons_self
  exact hindependent _ hcond (.res (.src 5) 0) List.mem_cons_self (by decide)

end RepeatSite

end DeclarativeMlir.Lua
