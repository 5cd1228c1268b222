import DeclarativeMlir.Lua.ControlFlowRuns

/-!
# The graph that lowering produces

Structured code is lowered in a context: as the body of the function, as a branch of a
`lua.cond_if`, or as the condition or the body of a `lua.loop_while`. The context decides what
becomes of the terminator. `target` is the code with its identities renamed and its terminator
adapted to the context, and its complete expansion is the part of the graph it is lowered to.
-/

namespace DeclarativeMlir.Lua

open LocalExpansion

/-! ## Renaming by clones -/

/-- The source op a copy stands for; ops created by a rewrite stand for none. -/
def OpId.source? : OpId → Option ℕ
  | .src n => some n
  | .clone op => op.source?
  | .new _ _ => none

/-- Every name is a copy of its source op. -/
def Renames (f : ℕ → OpId) : Prop := ∀ n, (f n).source? = some n

theorem renames_src : Renames .src := fun _ ↦ rfl

theorem OpId.origin_of_source? {op : OpId} {n : ℕ} (hsource : op.source? = some n) :
    op.origin = n := by
  induction op with
  | src m => simpa [source?, origin] using hsource
  | clone op ih => exact ih hsource
  | new op k => simp [source?] at hsource

theorem Renames.injective {f : ℕ → OpId} (hf : Renames f) : Function.Injective f := by
  intro a b hab
  have hsome : some a = some b := by rw [← hf a, ← hf b, hab]
  exact Option.some.inj hsome

theorem Renames.origin_comp {f : ℕ → OpId} (hf : Renames f) : OpId.origin ∘ f = id :=
  funext fun n ↦ OpId.origin_of_source? (hf n)

theorem Renames.ne_new {f : ℕ → OpId} (hf : Renames f) (n : ℕ) (op : OpId) (k : ℕ) :
    f n ≠ .new op k := by
  intro h
  have hsource := hf n
  simp [h, OpId.source?] at hsource

/-- The names in a copy of `code`, whose names outside the copy are given by `f`. -/
def copyNames (f : ℕ → OpId) (code : List (Op ℕ)) : ℕ → OpId := cloneIds (mapOps f code) ∘ f

theorem Renames.copyNames {f : ℕ → OpId} (hf : Renames f) (code : List (Op ℕ)) :
    Renames (copyNames f code) := by
  intro n
  simp only [Lua.copyNames, Function.comp_apply, cloneIds, Naming.clone]
  split <;> simp [OpId.source?, hf n]

mutual

theorem Op.defs_subst {ι κ : Type} (f : ι → κ) (v : Value ι → Value κ) :
    (op : Op ι) → (op.subst f v).defs = op.defs.map f
  | .mk id name attr operands numResults successors regions => by
    simp only [Op.subst, Op.defs, defsRegions_subst, List.map_cons]

theorem defsRegions_subst {ι κ : Type} (f : ι → κ) (v : Value ι → Value κ) :
    (regions : List (Region ι)) →
      defsRegions (substRegions f v regions) = (defsRegions regions).map f
  | [] => rfl
  | region :: regions => by
    simp only [substRegions, defsRegions, defsBlocks_subst, defsRegions_subst, List.map_append]

theorem defsBlocks_subst {ι κ : Type} (f : ι → κ) (v : Value ι → Value κ) :
    (blocks : Region ι) → defsBlocks (substBlocks f v blocks) = (defsBlocks blocks).map f
  | [] => rfl
  | block :: blocks => by
    simp only [substBlocks, defsBlocks, Blk.defs_subst, defsBlocks_subst, List.map_append]

theorem Blk.defs_subst {ι κ : Type} (f : ι → κ) (v : Value ι → Value κ) :
    (block : Blk ι) → (block.subst f v).defs = block.defs.map f
  | .mk (.entry op region) numArgs ops => by
    simp only [Blk.subst, BlockId.map, Blk.defs, defsOps_subst]
  | .mk (.new op k) numArgs ops => by
    simp only [Blk.subst, BlockId.map, Blk.defs, defsOps_subst, List.map_cons]

theorem defsOps_subst {ι κ : Type} (f : ι → κ) (v : Value ι → Value κ) :
    (ops : List (Op ι)) → defsOps (substOps f v ops) = (defsOps ops).map f
  | [] => rfl
  | op :: ops => by
    simp only [substOps, defsOps, Op.defs_subst, defsOps_subst, List.map_append]

end

/-- A value that the copied code does not define keeps its name. -/
theorem copyNames_of_notMem {f : ℕ → OpId} (hf : Renames f) {code : List (Op ℕ)} {n : ℕ}
    (hn : n ∉ defsOps code) : copyNames f code n = f n := by
  have hnotMem : f n ∉ defsOps (mapOps f code) := by
    rw [mapOps, defsOps_subst, List.mem_map_of_injective hf.injective]
    exact hn
  simp [copyNames, cloneIds, hnotMem]

theorem Value.map_congr {ι κ : Type} {f g : ι → κ} {value : Value ι}
    (h : f value.owner = g value.owner) : value.map f = value.map g := by
  cases value with
  | res op idx => simpa [Value.map, Value.owner] using h
  | arg block idx => cases block <;> simpa [Value.map, Value.owner, BlockId.map, BlockId.owner] using h

theorem copyInto_mapOps (f : ℕ → OpId) (code : List (Op ℕ)) :
    copyInto none [] (mapOps f code) = mapOps (copyNames f code) code := by
  have hlookup : lookupOrDefault [] (mapOps f code) = Value.map (cloneIds (mapOps f code)) := by
    funext value
    simp [lookupOrDefault]
  have hvalue : Value.map (cloneIds (mapOps f code)) ∘ Value.map f =
      Value.map (copyNames f code) := by
    funext value
    exact value.map_map _ _
  have hfilter : (mapOps f code).filter (fun op ↦ some op.name != none) = mapOps f code :=
    List.filter_eq_self.mpr fun _ _ ↦ rfl
  calc
    copyInto none [] (mapOps f code) =
        substOps (cloneIds (mapOps f code)) (Value.map (cloneIds (mapOps f code)))
          (mapOps f code) := by
      simp only [copyInto, hfilter, hlookup]
    _ = mapOps (copyNames f code) code := by
      exact (substOps_substOps _ _ _ _ code).trans (by rw [hvalue]; rfl)

/-! ## Contexts -/

/-- Where structured code is lowered to; `op` is the name of the enclosing op. -/
inductive Exit where
  | function
  | branch (op : OpId) (k : ℕ)
  | eval (op : OpId)
  | body (op : OpId)

namespace Exit

/-- The terminators allowed in the context. -/
def terms : Exit → List OpName
  | .function => [.ret]
  | .branch _ _ => [.end, .ret]
  | .eval _ => [.cond]
  | .body _ => [.end]

/-- What the lowering of the enclosing op makes of a terminator. -/
def terminator : Exit → Op OpId → List (Op OpId)
  | .function, term => [term]
  | .branch op k, term => if term.name = .end then [BranchOp (.new op k) (.new op 2)] else [term]
  | .eval op, term => term.operands.head?.toList.flatMap fun cond ↦
      [create (.new op 1) .convert_bool_like [cond] 1,
        CondBranchOp (.new op 2) (.res (.new op 1) 0) (.new op 1) (.new op 2)]
  | .body op, _ => [BranchOp (.new op 3) (.new op 0)]

end Exit

def target (exit : Exit) (f : ℕ → OpId) : List (Op ℕ) → List (Op OpId)
  | [] => []
  | [term] => exit.terminator (term.map f)
  | op :: op' :: rest => op.map f :: target exit f (op' :: rest)

theorem target_cons (exit : Exit) (f : ℕ → OpId) (op : Op ℕ) {rest : List (Op ℕ)}
    (hrest : rest ≠ []) : target exit f (op :: rest) = op.map f :: target exit f rest := by
  cases rest with
  | nil => contradiction
  | cons op' rest => rfl

theorem target_append_singleton (exit : Exit) (f : ℕ → OpId) (init : List (Op ℕ)) (term : Op ℕ) :
    target exit f (init ++ [term]) = mapOps f init ++ exit.terminator (term.map f) := by
  induction init with
  | nil => rfl
  | cons op init ih =>
    rw [List.cons_append, target_cons exit f op (by simp), ih]
    rfl

theorem mapOps_append_singleton {ι κ : Type} (f : ι → κ) (init : List (Op ι)) (term : Op ι) :
    mapOps f (init ++ [term]) = mapOps f init ++ [term.map f] := by
  simp [mapOps, substOps_eq_map, Op.map]

/-- Structured code ends in its only terminator. -/
theorem StructuredCode.exists_term {terms : List OpName} {visible : Set (Value ℕ)}
    {code : List (Op ℕ)} (hcode : StructuredCode terms visible code) :
    ∃ init term, code = init ++ [term] ∧ term.name ∈ terms ∧
      (term.name = .cond → ∃ cond, term.operands = [cond]) := by
  induction hcode with
  | endTerm id attr hmem hfresh => exact ⟨[], _, rfl, hmem, by simp [Op.name]⟩
  | retTerm id attr operands hmem hoperands hfresh => exact ⟨[], _, rfl, hmem, by simp [Op.name]⟩
  | condTerm id attr cond hmem hcond hfresh => exact ⟨[], _, rfl, hmem, fun _ ↦ ⟨cond, rfl⟩⟩
  | straight hname hoperands hfresh hrest ih =>
    obtain ⟨init, term, rfl, hterm⟩ := ih
    exact ⟨_ :: init, term, rfl, hterm⟩
  | condIf id attr cond hcond hfresh hfirst hsecond hrest ihfirst ihsecond ihrest =>
    obtain ⟨init, term, rfl, hterm⟩ := ihrest
    exact ⟨_ :: init, term, rfl, hterm⟩
  | loopWhile id attr hfresh heval hbody hrest iheval ihbody ihrest =>
    obtain ⟨init, term, rfl, hterm⟩ := ihrest
    exact ⟨_ :: init, term, rfl, hterm⟩

@[simp]
theorem Op.name_map {ι κ : Type} (f : ι → κ) (op : Op ι) : (op.map f).name = op.name := by
  cases op; rfl

@[simp]
theorem name_create {ι : Type} (id : ι) (name operands numResults) :
    (create id name operands numResults).name = name := rfl

@[simp]
theorem name_BranchOp {ι : Type} (id : ι) (dest) : (BranchOp id dest).name = .br := rfl

@[simp]
theorem name_CondBranchOp {ι : Type} (id : ι) (cond trueDest falseDest) :
    (CondBranchOp id cond trueDest falseDest).name = .cond_br := rfl

@[simp]
theorem Op.id_map {ι κ : Type} (f : ι → κ) (op : Op ι) : (op.map f).id = f op.id := by
  cases op; rfl

@[simp]
theorem Op.operands_map {ι κ : Type} (f : ι → κ) (op : Op ι) :
    (op.map f).operands = op.operands.map (Value.map f) := by
  cases op; rfl

theorem handleCondTerm_mapOps {visible : Set (Value ℕ)} {code : List (Op ℕ)}
    (hcode : StructuredCode [.end, .ret] visible code) (f : ℕ → OpId) (op : OpId) (k : ℕ) :
    handleCondTerm (.new op 2) (Naming.new op k) (mapOps f code) =
      some (target (.branch op k) f code) := by
  obtain ⟨init, term, rfl, hterm, -⟩ := hcode.exists_term
  rw [target_append_singleton, mapOps_append_singleton]
  simp only [List.mem_cons, List.not_mem_nil, or_false] at hterm
  rcases hterm with hname | hname <;>
    simp [handleCondTerm, Exit.terminator, hname, Naming.new]

theorem lowerCond_mapOps {visible : Set (Value ℕ)} {code : List (Op ℕ)}
    (hcode : StructuredCode [.cond] visible code) (f : ℕ → OpId) (op : OpId) :
    lowerCond (Naming.new op 1) (Naming.new op 2) (.new op 1) (.new op 2) (mapOps f code) =
      some (target (.eval op) f code) := by
  obtain ⟨init, term, rfl, hterm, hcond⟩ := hcode.exists_term
  obtain ⟨cond, hoperands⟩ := hcond (by simpa using hterm)
  rw [target_append_singleton, mapOps_append_singleton]
  simp [lowerCond, Exit.terminator, hoperands, Naming.new]

theorem dropLast_mapOps {visible : Set (Value ℕ)} {code : List (Op ℕ)}
    (hcode : StructuredCode [.end] visible code) (f : ℕ → OpId) (op : OpId) :
    (mapOps f code).dropLast ++ [BranchOp (Naming.new op 3) (.new op 0)] =
      target (.body op) f code := by
  obtain ⟨init, term, rfl, -, -⟩ := hcode.exists_term
  rw [target_append_singleton, mapOps_append_singleton]
  simp [Exit.terminator, Naming.new]

/-! ## Expansions of the structured ops -/

def condIfOp (id : ℕ) (attr : Attr) (cond : Value ℕ) (first second : List (Op ℕ)) : Op ℕ :=
  .mk id .cond_if attr [cond] 0 [] [[.mk (.entry id 0) 0 first], [.mk (.entry id 1) 0 second]]

def loopWhileOp (id : ℕ) (attr : Attr) (eval body : List (Op ℕ)) : Op ℕ :=
  .mk id .loop_while attr [] 0 [] [[.mk (.entry id 0) 0 eval], [.mk (.entry id 1) 0 body]]

/-- The lines of a block of structured code in its context. -/
def blockLines (label : BlockId OpId) (exit : Exit) (f : ℕ → OpId) (code : List (Op ℕ)) :
    List (Line OpId) :=
  .label label 0 :: (target exit f code).map .op

theorem expandLine_condIf {visible : Set (Value ℕ)} {first second : List (Op ℕ)}
    (hfirst : StructuredCode [.end, .ret] visible first)
    (hsecond : StructuredCode [.end, .ret] visible second) (f : ℕ → OpId) (id : ℕ) (attr : Attr)
    (cond : Value ℕ) :
    expandLine (.op ((condIfOp id attr cond first second).map f)) = some (
      [.op (create (.new (f id) 0) .convert_bool_like [cond.map f] 1),
        .op (CondBranchOp (.new (f id) 1) (.res (.new (f id) 0) 0) (.new (f id) 0)
          (.new (f id) 1))] ++
      (blockLines (.new (f id) 0) (.branch (f id) 2) (copyNames f first) first ++
        (blockLines (.new (f id) 1) (.branch (f id) 3) (copyNames f second) second ++
          [.label (.new (f id) 2) 0]))) := by
  have hmap : (condIfOp id attr cond first second).map f =
      .mk (f id) .cond_if attr [cond.map f] 0 [] [[.mk (.entry (f id) 0) 0 (mapOps f first)],
        [.mk (.entry (f id) 1) 0 (mapOps f second)]] := rfl
  rw [hmap]
  simp only [expandLine, lower, Op.name, lowerCondIf, getBlock0, Blk.ops, copyInto_mapOps,
    handleCondTerm_mapOps hfirst, handleCondTerm_mapOps hsecond, Option.bind_eq_bind,
    Option.bind_some, Option.map_some, Expansion.lines, lines, blockLines]
  simp [Naming.new, Blk.lines]

theorem expandLine_loopWhile {visible : Set (Value ℕ)} {eval body : List (Op ℕ)}
    (heval : StructuredCode [.cond] visible eval)
    (hbody : StructuredCode [.end] visible body) (f : ℕ → OpId) (id : ℕ) (attr : Attr) :
    expandLine (.op ((loopWhileOp id attr eval body).map f)) = some (
      [.op (BranchOp (.new (f id) 0) (.new (f id) 0))] ++
      (blockLines (.new (f id) 0) (.eval (f id)) (copyNames f eval) eval ++
        (blockLines (.new (f id) 1) (.body (f id)) (copyNames f body) body ++
          [.label (.new (f id) 2) 0]))) := by
  have hmap : (loopWhileOp id attr eval body).map f =
      .mk (f id) .loop_while attr [] 0 [] [[.mk (.entry (f id) 0) 0 (mapOps f eval)],
        [.mk (.entry (f id) 1) 0 (mapOps f body)]] := rfl
  rw [hmap]
  simp only [expandLine, lower, Op.name, lowerLoopWhile, getBlock0, Blk.ops, copyInto_mapOps,
    lowerCond_mapOps heval, dropLast_mapOps hbody, Option.bind_eq_bind,
    Option.bind_some, Option.map_some, Expansion.lines, lines, blockLines]
  simp [Naming.new, Blk.lines]

/-! ## Complete expansions -/

def OpName.IsCfgTerminator (name : OpName) : Prop := name ∈ [.br, .cond_br, .ret]

instance (name : OpName) : Decidable name.IsCfgTerminator :=
  inferInstanceAs (Decidable (name ∈ _))

/-- Terminators of structured code and of block graphs. -/
def OpName.IsTerminator (name : OpName) : Prop :=
  name ∈ [.br, .cond_br, .ret, .end, .cond, .until]

instance (name : OpName) : Decidable name.IsTerminator :=
  inferInstanceAs (Decidable (name ∈ _))

theorem OpName.IsStraight.not_isTerminator {name : OpName} (hname : name.IsStraight) :
    ¬ name.IsTerminator := by
  simp only [IsStraight, IsTerminator, List.mem_cons, not_or] at hname ⊢
  tauto

/-- Lines behind a label: blocks of ops that do not branch, each closed by one terminator. -/
inductive Terminated : List (Line OpId) → Prop where
  | last {term} (hterm : term.name.IsCfgTerminator) : Terminated [.op term]
  | op {op rest} (hop : ¬ op.name.IsTerminator) (hrest : Terminated rest) :
      Terminated (.op op :: rest)
  | label {term label rest} (hterm : term.name.IsCfgTerminator) (hrest : Terminated rest) :
      Terminated (.op term :: .label label 0 :: rest)

theorem Terminated.append {s t : List (Line OpId)} (hs : Terminated s) (ht : Terminated t)
    (label : BlockId OpId) : Terminated (s ++ .label label 0 :: t) := by
  induction hs with
  | last hterm => exact .label hterm ht
  | op hop hrest ih => exact .op hop ih
  | label hterm hrest ih => exact .label hterm ih

def labelsOf : List (Line OpId) → List (BlockId OpId)
  | [] => []
  | .label block _ :: rest => block :: labelsOf rest
  | .op _ :: rest => labelsOf rest

theorem labelsOf_append (s t : List (Line OpId)) :
    labelsOf (s ++ t) = labelsOf s ++ labelsOf t := by
  induction s with
  | nil => rfl
  | cons line s ih => cases line <;> simp [labelsOf, ih]

@[simp]
theorem labelsOf_map_op (ops : List (Op OpId)) : labelsOf (ops.map .op) = [] := by
  induction ops with
  | nil => rfl
  | cons op ops ih => simpa [labelsOf] using ih

/-- The structured op whose lowering created the block. -/
def BlockId.creator? : BlockId OpId → Option ℕ
  | .entry _ _ => none
  | .new op _ => op.source?

/-- The lines `u` are blocks without structured ops, and their labels were created for ops with
identities in `ids`. -/
structure LoweredLines (ids : List ℕ) (u : List (Line OpId)) : Prop where
  terminated : Terminated u
  flat : ∀ op, Line.op op ∈ u → ¬ op.name.IsControl
  nodup : (labelsOf u).Nodup
  creator : ∀ label ∈ labelsOf u, ∃ n ∈ ids, label.creator? = some n

theorem expandLine_of_not_isControl {op : Op OpId} (hop : ¬ op.name.IsControl) :
    expandLine (.op op) = none := by
  simp only [OpName.IsControl, List.mem_cons, List.not_mem_nil, or_false, not_or] at hop
  obtain ⟨hnumeric, hgeneric, hwhile, hrepeat, hif⟩ := hop
  have hlower : lower op = none := by
    unfold lower
    split <;> first | contradiction | rfl
  simp [expandLine, hlower]

theorem terminal_of_flat {u : List (Line OpId)}
    (hflat : ∀ op, Line.op op ∈ u → ¬ op.name.IsControl) : Terminal expandLine u := by
  intro line hline
  cases line with
  | label block numArgs => rfl
  | op op => exact expandLine_of_not_isControl (hflat op hline)

namespace LoweredLines

variable {ids ids₁ ids₂ : List ℕ} {u u₁ u₂ : List (Line OpId)}

theorem of_terminator {term : Op OpId} (hterm : term.name.IsCfgTerminator)
    (hcontrol : ¬ term.name.IsControl) : LoweredLines ids [.op term] where
  terminated := .last hterm
  flat := by simpa using hcontrol
  nodup := by simp [labelsOf]
  creator := by simp [labelsOf]

theorem cons_op {op : Op OpId} (hop : ¬ op.name.IsTerminator) (hcontrol : ¬ op.name.IsControl)
    (hu : LoweredLines ids u) : LoweredLines ids (.op op :: u) where
  terminated := .op hop hu.terminated
  flat := by
    intro op' hmem
    rcases List.mem_cons.mp hmem with heq | hmem
    · rwa [Line.op.inj heq]
    · exact hu.flat op' hmem
  nodup := hu.nodup
  creator := hu.creator

theorem of_branch (ids : List ℕ) (id : OpId) (dest : BlockId OpId) :
    LoweredLines ids [.op (BranchOp id dest)] :=
  of_terminator (by simp only [name_BranchOp]; decide) (by simp only [name_BranchOp]; decide)

theorem of_condBranch (ids : List ℕ) (convert id : OpId) (cond : Value OpId) (trueDest falseDest : BlockId OpId) :
    LoweredLines ids [.op (create convert .convert_bool_like [cond] 1),
      .op (CondBranchOp id (.res convert 0) trueDest falseDest)] := by
  refine cons_op ?_ ?_ (of_terminator ?_ ?_) <;>
    simp only [name_create, name_CondBranchOp] <;> decide

theorem mono (hu : LoweredLines ids u) (hsub : ids ⊆ ids₁) : LoweredLines ids₁ u where
  terminated := hu.terminated
  flat := hu.flat
  nodup := hu.nodup
  creator := fun label hlabel ↦
    let ⟨n, hn, hcreator⟩ := hu.creator label hlabel
    ⟨n, hsub hn, hcreator⟩

theorem creator_notMem (hu : LoweredLines ids u) {n : ℕ} (hn : n ∉ ids) {label : BlockId OpId}
    (hlabel : label.creator? = some n) : label ∉ labelsOf u := by
  intro hmem
  obtain ⟨m, hm, hcreator⟩ := hu.creator label hmem
  rw [hlabel, Option.some.injEq] at hcreator
  exact hn (hcreator ▸ hm)

theorem labels_disjoint (h₁ : LoweredLines ids₁ u₁) (h₂ : LoweredLines ids₂ u₂)
    (hdisjoint : ids₁.Disjoint ids₂) : (labelsOf u₁).Disjoint (labelsOf u₂) := by
  intro label hlabel
  obtain ⟨n, hn, hcreator⟩ := h₁.creator label hlabel
  exact h₂.creator_notMem (fun hn' ↦ hdisjoint hn hn') hcreator

/-- The three blocks that lowering a structured op creates, in front of its successor `u`. -/
theorem structured {op : OpId} {id : ℕ} (hop : op.source? = some id)
    {before : List (Line OpId)} (hbefore : LoweredLines [] before)
    (h₁ : LoweredLines ids₁ u₁) (h₂ : LoweredLines ids₂ u₂) (hu : LoweredLines ids u)
    (hnodup : (id :: (ids₁ ++ ids₂) ++ ids).Nodup) :
    LoweredLines (id :: (ids₁ ++ ids₂) ++ ids)
      (before ++ .label (.new op 0) 0 ::
        (u₁ ++ .label (.new op 1) 0 :: (u₂ ++ .label (.new op 2) 0 :: u))) where
  terminated :=
    hbefore.terminated.append (h₁.terminated.append (h₂.terminated.append hu.terminated _) _) _
  flat := by
    intro op' hmem
    simp only [List.mem_append, List.mem_cons, reduceCtorEq, false_or] at hmem
    rcases hmem with hmem | hmem | hmem | hmem
    · exact hbefore.flat op' hmem
    · exact h₁.flat op' hmem
    · exact h₂.flat op' hmem
    · exact hu.flat op' hmem
  nodup := by
    have hnone : labelsOf before = [] := List.eq_nil_iff_forall_not_mem.mpr fun label hlabel ↦ by
      obtain ⟨n, hn, -⟩ := hbefore.creator label hlabel
      exact List.not_mem_nil hn
    have hcreator : ∀ k, (BlockId.new op k).creator? = some id := fun k ↦ hop
    simp only [List.cons_append, List.append_assoc, List.nodup_cons, List.mem_append, not_or,
      List.nodup_append', List.disjoint_append_right] at hnodup
    obtain ⟨⟨hid₁, hid₂, hid⟩, hnodup₁, ⟨hnodup₂, hnodup', hdisjoint⟩, hdisjoint₁₂, hdisjoint₁⟩ :=
      hnodup
    have hnew₁ := fun k ↦ h₁.creator_notMem hid₁ (hcreator k)
    have hnew₂ := fun k ↦ h₂.creator_notMem hid₂ (hcreator k)
    have hnew := fun k ↦ hu.creator_notMem hid (hcreator k)
    simp only [labelsOf_append, labelsOf, hnone, List.nil_append, List.nodup_cons,
      List.nodup_append', List.mem_append, List.mem_cons, List.disjoint_append_right,
      List.disjoint_cons_right, not_or, BlockId.new.injEq, true_and]
    exact ⟨⟨hnew₁ 0, by omega, hnew₂ 0, by omega, hnew 0⟩, h₁.nodup,
      ⟨⟨hnew₂ 1, by omega, hnew 1⟩, h₂.nodup, ⟨hnew 2, hu.nodup⟩, hnew₂ 2,
        h₂.labels_disjoint hu hdisjoint⟩,
      hnew₁ 1, h₁.labels_disjoint h₂ hdisjoint₁₂, hnew₁ 2, h₁.labels_disjoint hu hdisjoint₁⟩
  creator := by
    intro label hmem
    simp only [labelsOf_append, labelsOf, List.mem_append, List.mem_cons] at hmem
    simp only [List.cons_append, List.append_assoc, List.mem_cons, List.mem_append]
    rcases hmem with hmem | rfl | hmem | rfl | hmem | rfl | hmem
    · obtain ⟨n, hn, -⟩ := hbefore.creator label hmem
      exact absurd hn List.not_mem_nil
    · exact ⟨id, Or.inl rfl, hop⟩
    · obtain ⟨n, hn, hcreator⟩ := h₁.creator label hmem
      exact ⟨n, Or.inr (Or.inl hn), hcreator⟩
    · exact ⟨id, Or.inl rfl, hop⟩
    · obtain ⟨n, hn, hcreator⟩ := h₂.creator label hmem
      exact ⟨n, Or.inr (Or.inr (Or.inl hn)), hcreator⟩
    · exact ⟨id, Or.inl rfl, hop⟩
    · obtain ⟨n, hn, hcreator⟩ := hu.creator label hmem
      exact ⟨n, Or.inr (Or.inr (Or.inr hn)), hcreator⟩

/-- What a context makes of a terminator it allows. -/
theorem of_exit (ids : List ℕ) (exit : Exit) {term : Op OpId} (hterm : term.name ∈ exit.terms)
    (hcond : term.name = .cond → ∃ cond, term.operands = [cond]) :
    LoweredLines ids ((exit.terminator term).map .op) := by
  cases exit with
  | function =>
    obtain hname : term.name = .ret := by simpa [Exit.terms] using hterm
    exact of_terminator (by rw [hname]; decide) (by rw [hname]; decide)
  | branch op k =>
    by_cases hend : term.name = .end
    · simp only [Exit.terminator, hend, if_true]
      exact of_branch _ _ _
    · obtain hname : term.name = .ret := by simpa [Exit.terms, hend] using hterm
      simp only [Exit.terminator, hend, if_false]
      exact of_terminator (by rw [hname]; decide) (by rw [hname]; decide)
  | eval op =>
    obtain ⟨cond, hoperands⟩ := hcond (by simpa [Exit.terms] using hterm)
    simp only [Exit.terminator, hoperands, List.head?_cons, Option.toList_some,
      List.flatMap_cons, List.flatMap_nil, List.append_nil]
    exact of_condBranch _ _ _ _ _ _
  | body op => exact of_branch _ _ _

theorem of_exit_map (ids : List ℕ) {exit : Exit} {term : Op ℕ} (hterm : term.name ∈ exit.terms)
    (hcond : term.name = .cond → ∃ cond, term.operands = [cond]) (f : ℕ → OpId) :
    LoweredLines ids ((exit.terminator (term.map f)).map .op) := by
  refine of_exit ids exit (by simpa using hterm) fun hname ↦ ?_
  obtain ⟨cond, hoperands⟩ := hcond (by simpa using hname)
  exact ⟨cond.map f, by simp [hoperands]⟩

end LoweredLines

theorem normal_of_flat {u : List (Line OpId)}
    (hflat : ∀ op, Line.op op ∈ u → ¬ op.name.IsControl) : Normal expandLine u u :=
  ⟨.refl, terminal_of_flat hflat⟩

theorem exists_lowered_term {exit : Exit} {term : Op ℕ} (hterm : term.name ∈ exit.terms)
    (hcond : term.name = .cond → ∃ cond, term.operands = [cond]) (f : ℕ → OpId) :
    ∃ u, Normal expandLine ((target exit f [term]).map .op) u ∧
      LoweredLines (defsOps [term]) u := by
  have hlines := LoweredLines.of_exit_map (defsOps [term]) hterm hcond f
  exact ⟨_, normal_of_flat hlines.flat, hlines⟩

/-- Structured code has a complete expansion in every context. -/
theorem StructuredCode.exists_lowered {terms : List OpName} {visible : Set (Value ℕ)}
    {code : List (Op ℕ)} (hcode : StructuredCode terms visible code)
    (hnodup : (defsOps code).Nodup) (exit : Exit) (hexit : exit.terms = terms) {f : ℕ → OpId}
    (hf : Renames f) :
    ∃ u, Normal expandLine ((target exit f code).map .op) u ∧ LoweredLines (defsOps code) u := by
  induction hcode generalizing exit f with
  | endTerm id attr hmem hfresh =>
    exact exists_lowered_term (hexit ▸ hmem) (by simp) f
  | retTerm id attr operands hmem hoperands hfresh =>
    exact exists_lowered_term (hexit ▸ hmem) (by simp) f
  | condTerm id attr cond hmem hcond hfresh =>
    exact exists_lowered_term (hexit ▸ hmem) (fun _ ↦ ⟨cond, rfl⟩) f
  | @straight terms visible op rest hname hoperands hfresh hrest ih =>
    rw [defsOps, List.nodup_append'] at hnodup
    obtain ⟨u, hu, hlines⟩ := ih hnodup.2.1 exit hexit hf
    have hcontrol : ¬ (op.map f).name.IsControl := by simpa using hname.not_isControl
    have hterm : ¬ (op.map f).name.IsTerminator := by simpa using hname.not_isTerminator
    have hcons := (hlines.mono (List.subset_append_right op.defs _)).cons_op hterm hcontrol
    rw [target_cons exit f op hrest.ne_nil, List.map_cons]
    exact ⟨_, Normal.cons_of_terminal (expandLine_of_not_isControl hcontrol) hu, hcons⟩
  | @condIf terms visible first second rest id attr cond hcond hfresh hfirst hsecond hrest
      ihfirst ihsecond ihrest =>
    have hdefs : defsOps (condIfOp id attr cond first second :: rest) =
        id :: (defsOps first ++ defsOps second) ++ defsOps rest := by
      simp [condIfOp, defsOps, Op.defs, defsRegions, defsBlocks, Blk.defs]
    change (defsOps (condIfOp id attr cond first second :: rest)).Nodup at hnodup
    change ∃ u, Normal expandLine
      ((target exit f (condIfOp id attr cond first second :: rest)).map .op) u ∧
      LoweredLines (defsOps (condIfOp id attr cond first second :: rest)) u
    rw [hdefs] at hnodup ⊢
    obtain ⟨hnodup', hnodupRest, -⟩ := List.nodup_append'.mp hnodup
    obtain ⟨hnodupFirst, hnodupSecond, -⟩ := List.nodup_append'.mp (List.nodup_cons.mp hnodup').2
    obtain ⟨u₁, hu₁, hlines₁⟩ := ihfirst hnodupFirst (.branch (f id) 2) rfl
      (hf.copyNames first)
    obtain ⟨u₂, hu₂, hlines₂⟩ := ihsecond hnodupSecond (.branch (f id) 3) rfl
      (hf.copyNames second)
    obtain ⟨u, hu, hlines⟩ := ihrest hnodupRest exit hexit hf
    rw [target_cons exit f _ hrest.ne_nil, List.map_cons]
    have hbefore := LoweredLines.of_condBranch [] (.new (f id) 0) (.new (f id) 1)
      (cond.map f) (.new (f id) 0) (.new (f id) 1)
    refine ⟨_, Normal.cons_of_expand (expandLine_condIf hfirst hsecond f id attr cond)
      (Normal.append (normal_of_flat hbefore.flat) (Normal.append (Normal.cons_of_terminal rfl hu₁)
        (Normal.append (Normal.cons_of_terminal rfl hu₂) (normal_of_flat (by simp))))) hu, ?_⟩
    simpa using hbefore.structured (hf id) hlines₁ hlines₂ hlines hnodup
  | @loopWhile terms visible eval body rest id attr hfresh heval hbody hrest iheval ihbody
      ihrest =>
    have hdefs : defsOps (loopWhileOp id attr eval body :: rest) =
        id :: (defsOps eval ++ defsOps body) ++ defsOps rest := by
      simp [loopWhileOp, defsOps, Op.defs, defsRegions, defsBlocks, Blk.defs]
    change (defsOps (loopWhileOp id attr eval body :: rest)).Nodup at hnodup
    change ∃ u, Normal expandLine
      ((target exit f (loopWhileOp id attr eval body :: rest)).map .op) u ∧
      LoweredLines (defsOps (loopWhileOp id attr eval body :: rest)) u
    rw [hdefs] at hnodup ⊢
    obtain ⟨hnodup', hnodupRest, -⟩ := List.nodup_append'.mp hnodup
    obtain ⟨hnodupEval, hnodupBody, -⟩ := List.nodup_append'.mp (List.nodup_cons.mp hnodup').2
    obtain ⟨u₁, hu₁, hlines₁⟩ := iheval hnodupEval (.eval (f id)) rfl (hf.copyNames eval)
    obtain ⟨u₂, hu₂, hlines₂⟩ := ihbody hnodupBody (.body (f id)) rfl (hf.copyNames body)
    obtain ⟨u, hu, hlines⟩ := ihrest hnodupRest exit hexit hf
    rw [target_cons exit f _ hrest.ne_nil, List.map_cons]
    have hbefore := LoweredLines.of_branch [] (.new (f id) 0) (.new (f id) 0)
    refine ⟨_, Normal.cons_of_expand (expandLine_loopWhile heval hbody f id attr)
      (Normal.append (normal_of_flat hbefore.flat) (Normal.append (Normal.cons_of_terminal rfl hu₁)
        (Normal.append (Normal.cons_of_terminal rfl hu₂) (normal_of_flat (by simp))))) hu, ?_⟩
    simpa using hbefore.structured (hf id) hlines₁ hlines₂ hlines hnodup

end DeclarativeMlir.Lua
