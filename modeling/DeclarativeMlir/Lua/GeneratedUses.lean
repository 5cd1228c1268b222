import DeclarativeMlir.Lua.Scoping

/-!
# Uses of generated operations

The operands of generated code, and the values among them that an assignment list unpacks: each is
used by one assignment only.
-/

namespace DeclarativeMlir.Lua

variable {ι : Type}

section

variable (id : ι) (name : OpName) (attr : Attr) (operands : List (Value ι)) (numResults : ℕ)
  (successors : List (BlockId ι)) (ops : List (Op ι))

@[simp]
theorem uses_noRegions :
    uses (.mk id name attr operands numResults successors [] :: ops) = operands ++ uses ops := by
  simp [uses, walkOps, Op.walk, walkRegions]

@[simp]
theorem uses_region (label : BlockId ι) (numArgs : ℕ) (body : List (Op ι))
    (regions : List (Region ι)) :
    uses (.mk id name attr operands numResults successors
        ([.mk label numArgs body] :: regions) :: ops) =
      operands ++ uses body ++ uses (.mk id name attr [] numResults successors regions :: ops) := by
  simp [uses, walkOps, Op.walk, walkRegions, walkBlocks, Blk.walk]

end

namespace Generator

section

variable (id : OpId) (name : OpName) (attr : Attr) (operands : List (Value OpId))
  (numResults : ℕ) (ops : List (Op OpId))

@[simp]
theorem uses_create :
    uses (create id name attr operands numResults :: ops) = operands ++ uses ops :=
  uses_noRegions _ _ _ _ _ _ _

@[simp]
theorem uses_makeConcat (vals : List (Value OpId) × List (Value OpId)) :
    uses (makeConcat id name numResults vals :: ops) = vals.1 ++ vals.2 ++ uses ops :=
  uses_create _ _ _ _ _ _

@[simp]
theorem uses_literal (value : Literal) : uses (literal id value :: ops) = uses ops := by
  cases value <;> exact uses_create _ _ _ _ _ _

end

/-! ## Uses of unpacked values -/

section

variable (m i : ℕ)

@[simp]
theorem src_ne_unpack (n : ℕ) : OpId.src n ≠ .unpack m := by simp [OpId.unpack]

@[simp]
theorem concat_ne_unpack (n : ℕ) : OpId.concat n ≠ .unpack m := by
  simp [OpId.concat, OpId.unpack]

@[simp]
theorem unpackCall_ne_unpack (n : ℕ) : OpId.unpackCall n ≠ .unpack m := by
  simp [OpId.unpackCall, OpId.unpack]

@[simp]
theorem implicit_ne_unpack (n : ℕ) : OpId.implicit n ≠ .unpack m := by
  simp [OpId.implicit, OpId.unpack]

@[simp]
theorem allocLocal_ne_unpack (n j : ℕ) : OpId.allocLocal n j ≠ .unpack m := by
  simp [OpId.allocLocal, OpId.unpack]

@[simp]
theorem varVal_ne_unpack (v : Var) : varVal v ≠ .res (.unpack m) i := by
  cases v <;> simp [varVal]

@[simp]
theorem expVal_ne_unpack : (e : Exp) → (allowPack : Bool) →
    expVal e allowPack ≠ .res (.unpack m) i
  | .literal _ _, _ | .unary _ _ _, _ | .binary _ _ _ _, _ | .table _ _, _
  | .functiondef _, _ => by simp [expVal]
  | .var v, _ => varVal_ne_unpack m i v
  | .paren e, _ => expVal_ne_unpack e false
  | .call n _ _, allowPack => by
    cases allowPack <;> simp [expVal]

theorem count_getValsAndTail (exps : List Exp) :
    ((getValsAndTail exps).1 ++ (getValsAndTail exps).2).count (.res (.unpack m) i) = 0 := by
  rw [List.count_eq_zero]
  induction exps using getValsAndTail.induct with
  | case1 => simp [getValsAndTail]
  | case2 e hpack =>
    simpa [getValsAndTail, hpack] using (expVal_ne_unpack m i e true).symm
  | case3 e hpack =>
    simpa [getValsAndTail, hpack] using (expVal_ne_unpack m i e true).symm
  | case4 e exps hne ih =>
    rw [getValsAndTail, List.cons_append, List.mem_cons, not_or]
    · exact ⟨(expVal_ne_unpack m i e false).symm, ih⟩
    · exact hne

@[simp]
theorem count_vals (exps : List Exp) :
    (getValsAndTail exps).1.count (.res (.unpack m) i) = 0 := by
  have hcount := count_getValsAndTail m i exps
  rw [List.count_append] at hcount
  omega

@[simp]
theorem count_tail (exps : List Exp) :
    (getValsAndTail exps).2.count (.res (.unpack m) i) = 0 := by
  have hcount := count_getValsAndTail m i exps
  rw [List.count_append] at hcount
  omega

/-- Each unpacked value is used once. -/
theorem count_assigns_le (n k : ℕ) (varList : List (Value OpId))
    (hvars : .res (.unpack m) i ∉ varList) :
    (uses ((varList.zipIdx k).map fun (tgt, i) ↦
      create (.assign n i) .assign .none [tgt, .res (.unpack n) i] 1)).count (.res (.unpack m) i) ≤
        if n = m ∧ k ≤ i then 1 else 0 := by
  induction varList generalizing k with
  | nil => simp
  | cons tgt varList ih =>
    rw [List.mem_cons, not_or] at hvars
    have hrest := ih (k + 1) hvars.2
    have hne : tgt ≠ .res (.unpack m) i := Ne.symm hvars.1
    rw [List.zipIdx_cons, List.map_cons, uses_create, List.count_append,
      List.count_cons_of_ne hne, List.count_singleton]
    simp only [OpId.unpack, beq_iff_eq, Value.res.injEq, OpId.new.injEq, OpId.src.injEq,
      and_true] at hrest ⊢
    split at hrest <;> split <;> split <;> omega

theorem count_handleAssignList_le (n : ℕ) (varList : List (Value OpId)) (exps : List Exp)
    (hvars : .res (.unpack m) i ∉ varList) :
    (uses (handleAssignList n varList exps)).count (.res (.unpack m) i) ≤
      if n = m then 1 else 0 := by
  have hassigns := count_assigns_le m i n 0 varList hvars
  simpa [handleAssignList] using hassigns

@[simp]
theorem count_handleCondRetstat (id : OpId) (retstat : Option (List Exp)) :
    (uses [handleCondRetstat id retstat]).count (.res (.unpack m) i) = 0 := by
  cases retstat with
  | none => simp [handleCondRetstat]
  | some exps => simp [handleCondRetstat, handleRetStat]

@[simp]
theorem stepVal_ne_unpack (n : ℕ) (step : Option Exp) : stepVal n step ≠ .res (.unpack m) i := by
  cases step <;> simp [stepVal]

@[simp]
theorem uses_allocLocals (n : ℕ) (names : List String) : uses (allocLocals n names) = [] := by
  rw [allocLocals]
  induction names.zipIdx with
  | nil => rfl
  | cons name names ih => simpa using ih

/-- Each assignment uses its value. -/
theorem mem_uses_assigns (n k : ℕ) (varList : List (Value OpId)) (hk : k ≤ i)
    (hi : i < k + varList.length) :
    .res (.unpack n) i ∈ uses ((varList.zipIdx k).map fun (tgt, i) ↦
      create (.assign n i) .assign .none [tgt, .res (.unpack n) i] 1) := by
  induction varList generalizing k with
  | nil => exact absurd hi (by simpa using hk)
  | cons tgt varList ih =>
    rw [List.length_cons] at hi
    rw [List.zipIdx_cons, List.map_cons, uses_create, List.mem_append]
    by_cases heq : i = k
    · rw [heq]
      exact .inl (by simp)
    · exact .inr (ih (k + 1) (by omega) (by omega))

theorem mem_uses_handleAssignList (n : ℕ) (varList : List (Value OpId)) (exps : List Exp)
    (hi : i < varList.length) :
    .res (.unpack n) i ∈ uses (handleAssignList n varList exps) := by
  rw [handleAssignList, uses_makeConcat, uses_create]
  apply List.mem_append_right
  apply List.mem_append_right
  exact mem_uses_assigns i n 0 varList (Nat.zero_le i) (by omega)

mutual

/-- An assignment list unpacks values of its own node, and each is used once. -/
theorem count_var_le : (v : Var) →
    (uses (var v)).count (.res (.unpack m) i) ≤ (Nodes.var v).count m
  | .name n x => by simp [var]
  | .index n tbl key => by
    have htbl := count_exp_le tbl false
    have hkey := count_exp_le key false
    simp [var, Nodes.var, List.count_cons]
    omega

theorem count_exp_le : (e : Exp) → (allowPack : Bool) →
    (uses (exp e allowPack)).count (.res (.unpack m) i) ≤ (Nodes.exp e).count m
  | .literal n value, _ => by simp [exp]
  | .unary n op val, _ => by
    have hval := count_exp_le val false
    simp [exp, Nodes.exp, List.count_cons]
    omega
  | .binary n op lhs rhs, _ => by
    have hlhs := count_exp_le lhs false
    have hrhs := count_exp_le rhs false
    simp [exp, Nodes.exp, List.count_cons]
    omega
  | .var v, _ => count_var_le v
  | .paren e, _ => count_exp_le e false
  | .call n fcn args, allowPack => by
    have hfcn := count_exp_le fcn false
    have hargs := count_explist_le args
    cases allowPack <;> simp [exp, handleCall, Nodes.exp, List.count_cons] <;> omega
  | .table n fields, _ => by
    have hfields := count_tableconstructor_le n 1 fields
    simp [exp, Nodes.exp, List.count_cons]
    omega
  | .functiondef body, _ => count_functiondef_le body

theorem count_varlist_le : (vs : List Var) →
    (uses (varlist vs)).count (.res (.unpack m) i) ≤ (Nodes.varlist vs).count m
  | [] => by simp [varlist]
  | v :: vs => by
    have hv := count_var_le v
    have hvs := count_varlist_le vs
    simp only [varlist, Nodes.varlist, uses_append, List.count_append]
    omega

theorem count_explist_le : (es : List Exp) →
    (uses (explist es)).count (.res (.unpack m) i) ≤ (Nodes.explist es).count m
  | [] => by simp [explist]
  | e :: es => by
    have he := count_exp_le e es.isEmpty
    have hes := count_explist_le es
    simp only [explist, Nodes.explist, uses_append, List.count_append]
    omega

theorem count_tableconstructor_le (n idx : ℕ) : (fields : List Field) →
    (uses (tableconstructor n idx fields)).count (.res (.unpack m) i) ≤
      (Nodes.tableconstructor fields).count m
  | [] => by simp [tableconstructor]
  | .keyed k key val :: fields => by
    have hkey := count_exp_le key false
    have hval := count_exp_le val false
    have hfields := count_tableconstructor_le n idx fields
    simp [tableconstructor, Nodes.tableconstructor, List.count_cons]
    omega
  | .named k x val :: fields => by
    have hval := count_exp_le val false
    have hfields := count_tableconstructor_le n idx fields
    simp [tableconstructor, Nodes.tableconstructor, List.count_cons]
    omega
  | .positional k val :: fields => by
    have hval := count_exp_le val false
    have hfields := count_tableconstructor_le n (idx + 1) fields
    simp [tableconstructor, Nodes.tableconstructor, List.count_cons]
    omega

theorem count_functiondef_le : (body : Funcbody) →
    (uses (functiondef body)).count (.res (.unpack m) i) ≤ (Nodes.functiondef body).count m
  | .mk n params body => by
    have hbody := count_block_le body
    simp [functiondef, entryRegion, handleRetStat, Nodes.functiondef, List.count_cons]
    omega

theorem count_block_le : (b : Block) →
    (uses (block b)).count (.res (.unpack m) i) ≤ (Nodes.block b).count m
  | .mk stats none => count_statlist_le stats
  | .mk stats (some exps) => by
    have hstats := count_statlist_le stats
    have hexps := count_explist_le exps
    simp only [block, Nodes.block, uses_append, List.count_append]
    omega

theorem count_statlist_le : (ss : List Stat) →
    (uses (statlist ss)).count (.res (.unpack m) i) ≤ (Nodes.statlist ss).count m
  | [] => by simp [statlist]
  | s :: ss => by
    have hs := count_stat_le s
    have hss := count_statlist_le ss
    simp only [statlist, Nodes.statlist, uses_append, List.count_append]
    omega

theorem count_stat_le : (s : Stat) →
    (uses (stat s)).count (.res (.unpack m) i) ≤ (Nodes.stat s).count m
  | .assignlist n vars exps => by
    have hvars := count_varlist_le vars
    have hexps := count_explist_le exps
    have hassign := count_handleAssignList_le m i n (vars.map varVal) exps (by simp)
    simp [stat, Nodes.stat, List.count_cons]
    omega
  | .functioncall n fcn args => by
    have hfcn := count_exp_le fcn false
    have hargs := count_explist_le args
    simp [stat, handleCall, Nodes.stat, List.count_cons]
    omega
  | .whileloop n cond body => by
    have hcond := count_exp_le cond false
    have hbody := count_statlist_le body
    simp [stat, entryRegion, Nodes.stat, List.count_cons]
    omega
  | .repeatloop n body cond => by
    have hcond := count_exp_le cond false
    have hbody := count_statlist_le body
    simp [stat, entryRegion, Nodes.stat, List.count_cons]
    omega
  | .conditionalchain n cond ifblock elseblock => by
    have hcond := count_exp_le cond false
    have hif := count_block_le ifblock
    have helse := count_block_le elseblock
    simp [stat, entryRegion, Nodes.stat, List.count_cons]
    omega
  | .numericfor n x lower upper step body => by
    have hlower := count_exp_le lower false
    have hupper := count_exp_le upper false
    have hstep := count_stepOps_le n step
    have hbody := count_statlist_le body
    simp [stat, entryRegion, Nodes.stat, List.count_cons]
    omega
  | .genericfor n params exps body => by
    have hexps := count_explist_le exps
    have hbody := count_statlist_le body
    simp [stat, entryRegion, Nodes.stat, List.count_cons]
    omega
  | .namedfunctiondef n x body => by
    have hbody := count_functiondef_le body
    simp [stat, Nodes.stat, List.count_cons]
    omega
  | .localnamedfunctiondef n x body => by
    have hbody := count_functiondef_le body
    simp [stat, Nodes.stat, List.count_cons]
    omega
  | .localvarlist n names exps => by
    have hexps := count_explist_le exps
    have hassign := count_handleAssignList_le m i n
      ((List.range names.length).map fun j ↦ .res (.allocLocal n j) 0) exps (by simp)
    cases exps with
    | nil => simp [stat]
    | cons e es =>
      simp [stat, Nodes.stat, List.count_cons]
      omega

theorem count_stepOps_le (n : ℕ) : (step : Option Exp) →
    (uses (stepOps n step)).count (.res (.unpack m) i) ≤ (Nodes.stepExp step).count m
  | some e => count_exp_le e false
  | none => by simp [stepOps]

end

end

end Generator

end DeclarativeMlir.Lua
