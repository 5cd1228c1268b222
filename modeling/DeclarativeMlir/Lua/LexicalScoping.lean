import DeclarativeMlir.Lua.StatementScopes

/-!
# Lexical scoping of generated code

Every phrase of a program is visited like its scope tree. Names are resolved as the rules of Lua say
exactly if no local statement uses its own names in its initial values and no local function uses
its own name in its body.
-/

namespace DeclarativeMlir.Lua

open LexicalScope

namespace AllocVisitor

variable {touched touched' fresh fresh' : List ℕ} {mainUses : List (Value OpId)}
  {main parent : OpId} {work work' : List Work} {t : ScopeTree}

/-! ## Phrases -/

/-- Every value of an assignment list has one use. -/
def UsedOnce (uses : List (Value OpId)) : Prop :=
  ∀ n i, uses.count (.res (.unpack n) i) ≤ 1

theorem plain_handleCondRetstat (id : OpId) (retstat : Option (List Exp)) (v : AllocVisitor) :
    visitOp mainUses main v parent (Generator.handleCondRetstat id retstat) = v := by
  cases retstat <;> rfl

theorem plain_literal (id : OpId) (value : Literal) (v : AllocVisitor) :
    visitOp mainUses main v parent (Generator.literal id value) = v := by
  cases value <;> rfl

theorem addOps_literal (id : OpId) (value : Literal) (ops : List (Op OpId)) :
    addOps parent (Generator.literal id value :: ops) =
      .op parent (Generator.literal id value) :: addOps parent ops := by
  cases value <;> exact addOps_create rfl _ _ _ _ _ _

theorem addOps_handleCondRetstat (id : OpId) (retstat : Option (List Exp)) (ops : List (Op OpId)) :
    addOps parent (Generator.handleCondRetstat id retstat :: ops) =
      .op parent (Generator.handleCondRetstat id retstat) :: addOps parent ops := by
  cases retstat <;> exact addOps_create rfl _ _ _ _ _ _

theorem exists_of_mem_varVal {vs : List Var} {tgt : Value OpId}
    (htgt : tgt ∈ vs.map Generator.varVal) :
    ∃ m ∈ Nodes.varlist vs, tgt = .res (.src m) 0 := by
  induction vs with
  | nil => contradiction
  | cons v vs ih =>
    rw [Nodes.varlist]
    rcases List.mem_cons.mp htgt with rfl | htgt
    · cases v with
      | name n x => exact ⟨n, by simp [Nodes.var], rfl⟩
      | index n tbl key => exact ⟨n, by simp [Nodes.var], rfl⟩
    · obtain ⟨m, hm, heq⟩ := ih htgt
      exact ⟨m, List.mem_append_right _ hm, heq⟩

mutual

theorem visits_var (honce : UsedOnce mainUses) (main parent : OpId) :
    (v : Var) → (Nodes.var v).Nodup →
    uses (Generator.var v) ⊆ mainUses →
    VisitsTargets mainUses main (Nodes.var v) (Nodes.var v) (addOps parent (Generator.var v))
      (Scoping.var v) [Generator.varVal v]
  | .name n x, _, _ => by
    rw [Generator.var, addOps_create rfl]
    exact .getOrAlloc parent n x
  | .index n tbl key, hnodup, huses => by
    obtain ⟨hn, hparts⟩ := List.nodup_cons.mp hnodup
    simp only [Generator.var, uses_append, List.append_subset] at huses
    have htbl := visits_exp honce main parent tbl false (List.nodup_append.mp hparts).1 huses.1.1
    have hkey := visits_exp honce main parent key false (List.nodup_append.mp hparts).2.1 huses.1.2
    rw [Generator.var, addOps_append, addOps_append, addOps_create rfl]
    apply VisitsTargets.tableGet (htbl.seq hkey (List.disjoint_of_nodup_append hparts)) hn

theorem visits_exp (honce : UsedOnce mainUses) (main parent : OpId) :
    (e : Exp) → (allowPack : Bool) → (Nodes.exp e).Nodup →
    uses (Generator.exp e allowPack) ⊆ mainUses →
    Visits mainUses main (Nodes.exp e) (Nodes.exp e)
      (addOps parent (Generator.exp e allowPack)) (Scoping.exp e)
  | .literal n value, _, _, _ => by
    rw [Generator.exp, addOps_literal]
    refine Visits.mono (.plain (plain_literal (.src n) value)) (by simp) ?_
    cases value <;> exact List.Subset.refl _
  | .unary n op val, _, hnodup, huses => by
    simp only [Generator.exp, uses_append, List.append_subset] at huses
    have hval := visits_exp honce main parent val false (List.nodup_cons.mp hnodup).2 huses.1
    rw [Generator.exp, addOps_append, addOps_create rfl]
    exact Visits.mono (hval.append_plain fun _ ↦ rfl) (by simp [Nodes.exp])
      (by simp [Nodes.exp, OpId.origin, Generator.create])
  | .binary n op lhs rhs, _, hnodup, huses => by
    have hparts := (List.nodup_cons.mp hnodup).2
    simp only [Generator.exp, uses_append, List.append_subset] at huses
    have hlhs := visits_exp honce main parent lhs false (List.nodup_append.mp hparts).1 huses.1.1
    have hrhs := visits_exp honce main parent rhs false (List.nodup_append.mp hparts).2.1 huses.1.2
    have hseq := hlhs.seq hrhs (List.disjoint_of_nodup_append hparts)
    rw [Generator.exp, addOps_append, addOps_append, addOps_create rfl]
    exact Visits.mono (hseq.append_plain fun _ ↦ rfl) (by simp [Nodes.exp])
      (by simp [Nodes.exp, OpId.origin, Generator.create])
  | .var v, _, hnodup, huses => (visits_var honce main parent v hnodup huses).visits
  | .paren e, _, hnodup, huses => visits_exp honce main parent e false hnodup huses
  | .call n fcn args, allowPack, hnodup, huses => by
    have hparts := (List.nodup_cons.mp hnodup).2
    simp only [Generator.exp, uses_append, List.append_subset] at huses
    have hfcn := visits_exp honce main parent fcn false (List.nodup_append.mp hparts).1 huses.1.1.1
    have hargs := visits_explist honce main parent args (List.nodup_append.mp hparts).2.1
      huses.1.1.2
    have hcall := (hfcn.seq hargs (List.disjoint_of_nodup_append hparts)).handleCall parent n fcn
      args
    rw [Generator.exp, addOps_append, addOps_append, addOps_append]
    cases allowPack with
    | true =>
      rw [if_pos rfl, addOps, List.append_nil]
      exact hcall.mono (by simp [Nodes.exp]) (by simp [Nodes.exp])
    | false =>
      rw [if_neg Bool.false_ne_true, addOps_create rfl]
      exact Visits.mono (hcall.append_plain fun _ ↦ rfl) (by simp [Nodes.exp])
        (by simp [Nodes.exp, OpId.origin, OpId.unpackCall, Generator.create])
  | .table n fields, _, hnodup, huses => by
    obtain ⟨hn, hfields⟩ := List.nodup_cons.mp hnodup
    simp only [Generator.exp, Generator.uses_create, List.nil_append] at huses
    have hvisits := visits_tableconstructor honce main parent n 1 fields hfields huses
    rw [Generator.exp, addOps_create rfl]
    exact Visits.mono (.plain_cons (fun _ ↦ rfl) rfl hvisits hn) (by simp [Nodes.exp])
      (by simp [Nodes.exp, OpId.origin, Generator.create])
  | .functiondef body, _, hnodup, huses => visits_functiondef honce main parent body hnodup huses

theorem visits_varlist (honce : UsedOnce mainUses) (main parent : OpId) :
    (vs : List Var) → (Nodes.varlist vs).Nodup →
    uses (Generator.varlist vs) ⊆ mainUses →
    VisitsTargets mainUses main (Nodes.varlist vs) (Nodes.varlist vs)
      (addOps parent (Generator.varlist vs)) (Scoping.varlist vs) (vs.map Generator.varVal)
  | [], _, _ => Visits.nil.targets
  | v :: vs, hnodup, huses => by
    have hparts := List.nodup_append.mp hnodup
    simp only [Generator.varlist, uses_append, List.append_subset] at huses
    have hv := visits_var honce main parent v hparts.1 huses.1
    have hvs := visits_varlist honce main parent vs hparts.2.1 huses.2
    have hdisjoint := List.disjoint_of_nodup_append hnodup
    rw [Generator.varlist, addOps_append]
    apply hv.seq hvs hdisjoint
    intro tgt htgt
    have htgt' : tgt ∈ [v].map Generator.varVal := htgt
    obtain ⟨m, hm, heq⟩ := exists_of_mem_varVal htgt'
    rw [Nodes.varlist, Nodes.varlist, List.append_nil] at hm
    exact ⟨⟨m, heq, hdisjoint hm⟩, fun env ↦ Scoping.after_varlist env vs⟩

theorem visits_explist (honce : UsedOnce mainUses) (main parent : OpId) :
    (es : List Exp) → (Nodes.explist es).Nodup →
    uses (Generator.explist es) ⊆ mainUses →
    Visits mainUses main (Nodes.explist es) (Nodes.explist es)
      (addOps parent (Generator.explist es)) (Scoping.explist es)
  | [], _, _ => .nil
  | e :: es, hnodup, huses => by
    have hparts := List.nodup_append.mp hnodup
    simp only [Generator.explist, uses_append, List.append_subset] at huses
    rw [Generator.explist, addOps_append]
    exact (visits_exp honce main parent e es.isEmpty hparts.1 huses.1).seq
      (visits_explist honce main parent es hparts.2.1 huses.2)
        (List.disjoint_of_nodup_append hnodup)

theorem visits_tableconstructor (honce : UsedOnce mainUses) (main parent : OpId) (n idx : ℕ) :
    (fields : List Field) →
    (Nodes.tableconstructor fields).Nodup →
    uses (Generator.tableconstructor n idx fields) ⊆ mainUses →
    Visits mainUses main (Nodes.tableconstructor fields) (Nodes.tableconstructor fields)
      (addOps parent (Generator.tableconstructor n idx fields)) (Scoping.tableconstructor fields)
  | [], _, _ => .nil
  | .keyed m key val :: fields, hnodup, huses => by
    have hparts := (List.nodup_cons.mp hnodup).2
    have hfield := List.nodup_append.mp (List.nodup_append.mp hparts).1
    simp only [Generator.tableconstructor, List.append_assoc, uses_append, Generator.uses_create,
      List.append_subset] at huses
    have hkey := visits_exp honce main parent key false hfield.1 huses.1
    have hval := visits_exp honce main parent val false hfield.2.1 huses.2.1
    have hfields := visits_tableconstructor honce main parent n idx fields
      (List.nodup_append.mp hparts).2.1 huses.2.2.2
    have hseq := hkey.seq hval (List.disjoint_of_nodup_append (List.nodup_append.mp hparts).1)
    rw [Generator.tableconstructor, addOps_append, addOps_append, addOps_create rfl]
    apply Visits.mono (hseq.setField hfields (List.disjoint_of_nodup_append hnodup) (fun _ ↦ rfl)
      rfl)
    · simp [Nodes.tableconstructor]
    · exact List.Subset.refl _
  | .named m x val :: fields, hnodup, huses => by
    have hparts := (List.nodup_cons.mp hnodup).2
    have hn := (List.nodup_cons.mp (List.nodup_append.mp hnodup).1).1
    simp only [Generator.tableconstructor, List.cons_append, uses_append, Generator.uses_create,
      List.append_subset] at huses
    have hval := visits_exp honce main parent val false (List.nodup_append.mp hparts).1 huses.2.1
    have hfields := visits_tableconstructor honce main parent n idx fields
      (List.nodup_append.mp hparts).2.1 fun _ hval ↦ huses.2.2 (by simp [hval])
    rw [Generator.tableconstructor, List.cons_append, addOps_create rfl, addOps_append,
      addOps_create rfl]
    apply Visits.mono (hval.implicitField hfields (List.disjoint_of_nodup_append hnodup) hn
      (fun _ ↦ rfl)
      rfl (fun _ ↦ rfl) rfl)
    · simp [Nodes.tableconstructor]
    · exact List.Subset.refl _
  | .positional m val :: fields, hnodup, huses => by
    have hparts := (List.nodup_cons.mp hnodup).2
    have hn := (List.nodup_cons.mp (List.nodup_append.mp hnodup).1).1
    simp only [Generator.tableconstructor, List.cons_append, uses_append, Generator.uses_create,
      List.append_subset] at huses
    have hval := visits_exp honce main parent val false (List.nodup_append.mp hparts).1 huses.2.1
    have hfields := visits_tableconstructor honce main parent n (idx + 1) fields
      (List.nodup_append.mp hparts).2.1 fun _ hval ↦ huses.2.2 (by simp [hval])
    rw [Generator.tableconstructor, List.cons_append, addOps_create rfl, addOps_append,
      addOps_create rfl]
    apply Visits.mono (hval.implicitField hfields (List.disjoint_of_nodup_append hnodup) hn
      (fun _ ↦ rfl)
      rfl (fun _ ↦ rfl) rfl)
    · simp [Nodes.tableconstructor]
    · exact List.Subset.refl _

theorem visits_functiondef (honce : UsedOnce mainUses) (main parent : OpId) :
    (body : Funcbody) → (Nodes.functiondef body).Nodup →
    uses (Generator.functiondef body) ⊆ mainUses →
    Visits mainUses main (Nodes.functiondef body) (Nodes.functiondef body)
      (addOps parent (Generator.functiondef body)) (Scoping.functiondef body)
  | .mk n params body, hnodup, huses => by
    obtain ⟨hn, hbody⟩ := List.nodup_cons.mp hnodup
    simp only [Generator.functiondef, Generator.entryRegion, uses_region, uses_append,
      List.append_subset] at huses
    have hblock := visits_block honce main (.src n) body hbody huses.1.2.1
    have hret : ∀ v, visitOp mainUses main v (.src n)
        (Generator.handleRetStat (.terminator n 0) body.retstat) = v := fun _ ↦ rfl
    rw [Generator.functiondef, Scoping.functiondef, addOps, addOps, List.append_nil,
      checkWork_arguments rfl, addOps_append, Generator.handleRetStat, Generator.makeConcat,
      addOps_create rfl]
    apply Visits.mono (Visits.scopeOf (hblock.append_plain hret) rfl (fun _ ↦ rfl) hn)
    · simp [Nodes.functiondef]
    · simp [Nodes.functiondef, Generator.handleRetStat, Generator.makeConcat, Generator.create,
        OpId.terminator, OpId.origin]

theorem visits_block (honce : UsedOnce mainUses) (main parent : OpId) :
    (b : Block) → (Nodes.block b).Nodup →
    uses (Generator.block b) ⊆ mainUses →
    Visits mainUses main (Nodes.block b) (Nodes.block b)
      (addOps parent (Generator.block b)) (Scoping.block b)
  | .mk stats none, hnodup, huses => visits_statlist honce main parent stats hnodup huses
  | .mk stats (some exps), hnodup, huses => by
    have hparts := List.nodup_append.mp hnodup
    simp only [Generator.block, uses_append, List.append_subset] at huses
    rw [Generator.block, addOps_append]
    exact (visits_statlist honce main parent stats hparts.1 huses.1).seq
      (visits_explist honce main parent exps hparts.2.1 huses.2)
        (List.disjoint_of_nodup_append hnodup)

theorem visits_statlist (honce : UsedOnce mainUses) (main parent : OpId) :
    (ss : List Stat) → (Nodes.statlist ss).Nodup →
    uses (Generator.statlist ss) ⊆ mainUses →
    Visits mainUses main (Nodes.statlist ss) (Nodes.statlist ss)
      (addOps parent (Generator.statlist ss)) (Scoping.statlist ss)
  | [], _, _ => .nil
  | s :: ss, hnodup, huses => by
    have hparts := List.nodup_append.mp hnodup
    simp only [Generator.statlist, uses_append, List.append_subset] at huses
    rw [Generator.statlist, addOps_append]
    exact (visits_stat honce main parent s hparts.1 huses.1).seq
      (visits_statlist honce main parent ss hparts.2.1 huses.2)
        (List.disjoint_of_nodup_append hnodup)

theorem visits_stat (honce : UsedOnce mainUses) (main parent : OpId) :
    (s : Stat) → (Nodes.stat s).Nodup →
    uses (Generator.stat s) ⊆ mainUses →
    Visits mainUses main (Nodes.stat s) (Nodes.stat s)
      (addOps parent (Generator.stat s)) (Scoping.stat s)
  | .assignlist n vars exps, hnodup, huses => by
    have hparts := (List.nodup_cons.mp hnodup).2
    have hdisjoint := List.disjoint_of_nodup_append hparts
    simp only [Generator.stat, uses_append, List.append_subset] at huses
    have hvars := visits_varlist honce main parent vars (List.nodup_append.mp hparts).1 huses.1.1
    have hexps := visits_explist honce main parent exps (List.nodup_append.mp hparts).2.1 huses.1.2
    have hseq := hvars.seq hexps.targets hdisjoint fun tgt htgt ↦ by
      obtain ⟨m, hm, heq⟩ := exists_of_mem_varVal htgt
      exact ⟨⟨m, heq, hdisjoint hm⟩, fun env ↦ Scoping.after_explist env exps⟩
    rw [List.append_nil] at hseq
    rw [Generator.stat, addOps_append, addOps_append]
    exact (hseq.handleAssignList n exps).mono (by simp [Nodes.stat]) (by simp [Nodes.stat])
  | .functioncall n fcn args, hnodup, huses => by
    have hparts := (List.nodup_cons.mp hnodup).2
    simp only [Generator.stat, uses_append, List.append_subset] at huses
    have hfcn := visits_exp honce main parent fcn false (List.nodup_append.mp hparts).1 huses.1.1
    have hargs := visits_explist honce main parent args (List.nodup_append.mp hparts).2.1 huses.1.2
    have hcall := (hfcn.seq hargs (List.disjoint_of_nodup_append hparts)).handleCall parent n fcn
      args
    rw [Generator.stat, addOps_append, addOps_append]
    exact hcall.mono (by simp [Nodes.stat]) (by simp [Nodes.stat])
  | .whileloop n cond body, hnodup, huses => by
    obtain ⟨hn, hparts⟩ := List.nodup_cons.mp hnodup
    simp only [Generator.stat, Generator.entryRegion, uses_region, uses_append,
      List.append_subset] at huses
    have hcond := visits_exp honce main (.src n) cond false (List.nodup_append.mp hparts).1
      huses.1.2.1
    have hbody := visits_statlist honce main (.src n) body (List.nodup_append.mp hparts).2.1
      huses.2.1.2.1
    rw [Generator.stat, addOps, addOps, List.append_nil, checkWork_regions rfl,
      addRegions_entryRegion, addRegions_entryRegion, addRegions, List.append_nil, addOps_append,
      addOps_append, addOps_create rfl, addOps_create rfl]
    have hdisjoint : (n :: Nodes.exp cond).Disjoint (Nodes.statlist body) :=
      List.disjoint_cons_left.mpr
        ⟨fun hmem ↦ hn (List.mem_append_right _ hmem), List.disjoint_of_nodup_append hparts⟩
    exact Visits.mono (.plain_cons (fun _ ↦ by rfl) (by rfl)
      ((hcond.terminator n (fun _ ↦ by rfl) (by rfl)).block.seq
        (hbody.terminator n (fun _ ↦ by rfl) (by rfl)).block hdisjoint) hn)
      (by simp [Nodes.stat]) (by simp [Nodes.stat])
  | .repeatloop n body cond, hnodup, huses => by
    obtain ⟨hn, hparts⟩ := List.nodup_cons.mp hnodup
    simp only [Generator.stat, Generator.entryRegion, uses_region, uses_append,
      List.append_subset] at huses
    have hbody := visits_statlist honce main (.src n) body (List.nodup_append.mp hparts).1
      huses.1.2.1
    have hcond := visits_exp honce main (.terminator n 0) cond false
      (List.nodup_append.mp hparts).2.1
      huses.1.2.2.1.2.1
    rw [Generator.stat, addOps, addOps, List.append_nil, checkWork_regions rfl,
      addRegions_entryRegion, addRegions, List.append_nil, addOps_append, addOps, addOps,
      List.append_nil, checkWork_regions rfl, addRegions_entryRegion, addRegions, List.append_nil,
      addOps_append, addOps_create rfl]
    have hnBody : n ∉ Nodes.statlist body := fun hmem ↦ hn (List.mem_append_left _ hmem)
    have hnCond : n ∉ Nodes.exp cond := fun hmem ↦ hn (List.mem_append_right _ hmem)
    exact Visits.mono (.plain_cons (fun _ ↦ by rfl) (by rfl)
      (hbody.seq (.plain_cons (fun _ ↦ by rfl) (by rfl)
        (hcond.terminator n (fun _ ↦ by rfl) (by rfl)).block hnCond)
        (List.disjoint_of_nodup_append hparts)).block hn)
      (by simp [Nodes.stat]) (by simp [Nodes.stat])
  | .conditionalchain n cond ifblock elseblock, hnodup, huses => by
    obtain ⟨hn, hparts⟩ := List.nodup_cons.mp hnodup
    have hblocks := (List.nodup_append.mp hparts).2.1
    simp only [Generator.stat, Generator.entryRegion, uses_region, uses_append,
      List.append_subset] at huses
    have hcond := visits_exp honce main parent cond false (List.nodup_append.mp hparts).1 huses.1
    have hif := visits_block honce main (.src n) ifblock (List.nodup_append.mp hblocks).1
      huses.2.1.2.1
    have helse := visits_block honce main (.src n) elseblock (List.nodup_append.mp hblocks).2.1
      huses.2.2.1.2.1
    rw [Generator.stat, addOps_append, addOps, addOps, List.append_nil, checkWork_regions rfl,
      addRegions_entryRegion, addRegions_entryRegion, addRegions, List.append_nil, addOps_append,
      addOps_append, addOps_handleCondRetstat, addOps_handleCondRetstat]
    have hdisjoint : (n :: Nodes.block ifblock).Disjoint (Nodes.block elseblock) :=
      List.disjoint_cons_left.mpr
        ⟨fun hmem ↦ hn (List.mem_append_right _ (List.mem_append_right _ hmem)),
          List.disjoint_of_nodup_append hblocks⟩
    have horigin : ∀ i retstat,
        (Generator.handleCondRetstat (.terminator n i) retstat).id.origin = n := by
      intro i retstat
      cases retstat <;> rfl
    exact Visits.mono (hcond.seq (.plain_cons (fun _ ↦ by rfl) (by rfl)
      ((hif.terminator n (plain_handleCondRetstat _ _) (horigin 0 _)).block.seq
        (helse.terminator n (plain_handleCondRetstat _ _) (horigin 1 _)).block hdisjoint)
      fun hmem ↦ hn (List.mem_append_right _ hmem)) (List.disjoint_of_nodup_append hparts))
      (List.subset_cons_self n _) (by intro m; simp [Nodes.stat]; tauto)
  | .numericfor n x lower upper step body, hnodup, huses => by
    have hparts := List.nodup_append.mp hnodup
    have hlimits := List.nodup_append.mp hparts.1
    have hbounds := List.nodup_append.mp hlimits.1
    obtain ⟨hn, hbodyNodes⟩ := List.nodup_cons.mp hparts.2.1
    simp only [Generator.stat, Generator.entryRegion, uses_region, uses_append,
      List.append_subset] at huses
    have hlower := visits_exp honce main parent lower false hbounds.1 huses.1.1.1
    have hupper := visits_exp honce main parent upper false hbounds.2.1 huses.1.1.2
    have hstep := visits_stepOps honce main parent n step hlimits.2.1 huses.1.2
    have hbody := visits_statlist honce main (.src n) body hbodyNodes huses.2.1.2.1
    have hseq := (hlower.seq hupper (List.disjoint_of_nodup_append hlimits.1)).seq hstep
      (List.disjoint_of_nodup_append hparts.1)
    have houter := List.disjoint_cons_right.mp (List.disjoint_of_nodup_append hnodup)
    have hdisjoint : (Nodes.exp lower ++ Nodes.exp upper ++ n :: Nodes.stepExp step).Disjoint
        (Nodes.statlist body) := by
      intro m hm hbodyMem
      have hm' : m = n ∨ m ∈ Nodes.exp lower ++ Nodes.exp upper ++ Nodes.stepExp step := by
        simp only [List.mem_append, List.mem_cons] at hm ⊢
        tauto
      rcases hm' with rfl | hm'
      · exact hn hbodyMem
      · exact houter.2 hm' hbodyMem
    rw [Generator.stat, addOps_append, addOps_append, addOps_append, addOps, addOps,
      List.append_nil, checkWork_arguments rfl, addOps_append, addOps_create rfl]
    exact Visits.mono (hseq.seq (.scopeOf (hbody.terminator n (fun _ ↦ by rfl) (by rfl)) (by rfl)
      (fun _ ↦ by rfl) hn) hdisjoint)
      (by intro m; simp [Nodes.stat]; tauto) (by intro m; simp [Nodes.stat]; tauto)
  | .genericfor n params exps body, hnodup, huses => by
    have hparts := List.nodup_append.mp hnodup
    obtain ⟨hn, hbodyNodes⟩ := List.nodup_cons.mp hparts.2.1
    simp only [Generator.stat, Generator.entryRegion, Generator.uses_makeConcat,
      Generator.uses_create, uses_region, uses_append, List.append_subset] at huses
    have hexps := visits_explist honce main parent exps hparts.1 huses.1
    have hbody := visits_statlist honce main (.src n) body hbodyNodes huses.2.2.2.1.2.1
    have houter := List.disjoint_cons_right.mp (List.disjoint_of_nodup_append hnodup)
    have hdisjoint : (n :: n :: Nodes.explist exps).Disjoint (Nodes.statlist body) :=
      List.disjoint_cons_left.mpr ⟨hn, List.disjoint_cons_left.mpr ⟨hn, houter.2⟩⟩
    rw [Generator.stat, addOps_append, Generator.makeConcat, addOps_create rfl, addOps_create rfl,
      addOps, addOps, List.append_nil, checkWork_arguments rfl, addOps_append, addOps_create rfl,
      List.append_cons, List.append_cons (_ ++ _)]
    exact Visits.mono (((hexps.terminator n (fun _ ↦ by rfl) (by rfl)).terminator n
      (fun _ ↦ by rfl) (by rfl)).seq (.scopeOf (hbody.terminator n (fun _ ↦ by rfl) (by rfl))
        (by rfl) (fun _ ↦ by rfl) hn) hdisjoint)
      (by intro m; simp [Nodes.stat]; tauto) (by intro m; simp [Nodes.stat]; tauto)
  | .namedfunctiondef n x body, hnodup, huses => by
    have hparts := List.nodup_append.mp hnodup
    simp only [Generator.stat, uses_append, List.append_subset] at huses
    have hbody := visits_functiondef honce main parent body hparts.1 huses.1
    have huse := hbody.seqTargets (.getOrAlloc parent n x) (List.disjoint_of_nodup_append hnodup)
    rw [Generator.stat, addOps_append, addOps_create rfl, addOps_create rfl, List.append_cons]
    apply Visits.mono (huse.assign parent (by simp) n 0 (.res (.src body.node) 0))
    · simp [Nodes.stat]
    · simp [Nodes.stat]
  | .localnamedfunctiondef n x body, hnodup, huses => by
    obtain ⟨hn, hbodyNodes⟩ := List.nodup_cons.mp hnodup
    simp only [Generator.stat, uses_append, List.append_subset] at huses
    have hbody := visits_functiondef honce main parent body hbodyNodes huses.1
    have hlocal := hbody.seqTargets (.allocLocal parent n x) (List.disjoint_singleton.mpr hn)
    have hassign := hlocal.assign parent List.mem_cons_self n 0
      (.res (.src body.node) 0)
    rw [Generator.stat, addOps_append, addOps_create rfl, addOps_create rfl, List.append_cons]
    apply (hassign.mono (by simp [Nodes.stat]) (by simp [Nodes.stat])).congr
    · intro env
      cases body
      rfl
    · intro env
      cases body
      simp [Tree.flip, Tree.resolve, Scoping.stat]
  | .localvarlist n names [], hnodup, huses => by
    rw [Generator.stat, List.isEmpty_nil, if_pos rfl, List.append_nil]
    exact .allocLocals parent n names
  | .localvarlist n names (e :: es), hnodup, huses => by
    obtain ⟨hn, hexpsNodes⟩ := List.nodup_cons.mp hnodup
    simp only [Generator.stat, List.isEmpty_cons, Bool.false_eq_true, if_false, uses_append,
      List.append_subset] at huses
    have hexps := visits_explist honce main parent (e :: es) hexpsNodes huses.2.1
    have hone : ∀ i < names.length, mainUses.count (.res (.unpack n) i) = 1 := by
      intro i hi
      have hmem := Generator.mem_uses_handleAssignList i n
        ((List.range names.length).map fun i ↦ .res (.allocLocal n i) 0) (e :: es) (by simpa)
      have hpos := List.count_pos_iff.mpr (huses.2.2 hmem)
      have hle := honce n i
      omega
    rw [Generator.stat, List.isEmpty_cons, if_neg Bool.false_ne_true, addOps_append,
      addOps_append]
    exact hexps.localvarlist (fun env ↦ Scoping.after_explist env (e :: es)) hn hn names (e :: es)
      hone

theorem visits_stepOps (honce : UsedOnce mainUses) (main parent : OpId) (n : ℕ) :
    (step : Option Exp) →
    (Nodes.stepExp step).Nodup → uses (Generator.stepOps n step) ⊆ mainUses →
    Visits mainUses main (Nodes.stepExp step) (n :: Nodes.stepExp step)
      (addOps parent (Generator.stepOps n step)) (Scoping.stepExp step)
  | some e, hnodup, huses =>
    (visits_exp honce main parent e false hnodup huses).mono (List.Subset.refl _)
      (List.subset_cons_self _ _)
  | none, _, _ => by
    rw [Generator.stepOps, addOps_create rfl]
    exact Visits.plain fun _ ↦ rfl

end

/-! ## Programs -/

/-- The cells of the globals are distinct from each other and from those of all declarations. -/
structure DistinctGlobals (globals : Globals) : Prop where
  injective : ∀ x y c, globals x = some c → globals y = some c → x = y
  ne_declaration : ∀ x (d : Declaration), globals x ≠ some d.cell

/-- The names of the code are resolved to the variables of `uses`, and each global name to one
variable. -/
def SameDeclarations (code : List (OpId × String × Value OpId))
    (uses : List (ℕ × String × Option Declaration)) : Prop :=
  ∃ globals : Globals, DistinctGlobals globals ∧ List.Forall₂ (Refers globals) code uses

/-- What each name of a program is resolved to by the compiler. -/
def resolveNames (n : ℕ) (stats : List Stat) : List (OpId × String × Value OpId) :=
  (visitAll (.src n) (Generator.chunk n stats)).resolved

theorem inv_init : Inv init (fun _ ↦ none) [fun _ ↦ none] [] where
  agree := ⟨fun _ ↦ rfl, trivial⟩
  standsFor scope hscope x ref hx := by
    rw [List.mem_singleton.mp hscope] at hx
    contradiction
  resolved := .nil
  replaced _ := .inl rfl
  unvisited _ _ _ := rfl
  allocs _ _ hq := by contradiction
  globalAlloc _ _ hc := by contradiction
  injective _ _ _ hc := by contradiction

theorem Inv.distinct {v : AllocVisitor} {globals : Globals} {envs : List ScopeEnv}
    {log : List (ℕ × String × Option Declaration)} (h : Inv v globals envs log) :
    DistinctGlobals globals where
  injective := h.injective
  ne_declaration x d hx := by
    obtain ⟨m, heq, -⟩ := h.globalAlloc x _ hx
    cases d <;> simp [Declaration.cell, OpId.alloc, OpId.allocLocal] at heq

theorem usedOnce_chunk {stats : List Stat} (hnodup : (Nodes.statlist stats).Nodup) (n : ℕ) :
    UsedOnce (uses (Generator.chunk n stats)) := by
  intro m i
  have hcount := Generator.count_statlist_le m i stats
  have hone := List.nodup_iff_count_le_one.mp hnodup m
  have hret : (uses [Generator.handleRetStat (.terminator n 0) none]).count (.res (.unpack m) i) =
      0 := rfl
  rw [Generator.chunk, uses_append, List.count_append, hret]
  omega

/-- The code declares the names of a local statement before its values and the name of a local
function after its body. -/
theorem resolveNames_flip {stats : List Stat} (hnodup : (Nodes.statlist stats).Nodup) (n : ℕ) :
    SameDeclarations (resolveNames n stats)
      ((Scoping.statlist stats).flip.resolve fun _ ↦ none) := by
  have husesStats : uses (Generator.statlist stats) ⊆ uses (Generator.chunk n stats) := by
    intro val hval
    rw [Generator.chunk, uses_append]
    exact List.mem_append_left _ hval
  have hstats := visits_statlist (usedOnce_chunk hnodup n) (.src n) (.src n) stats hnodup
    husesStats
  have hret : ∀ v, visitOp (uses (Generator.chunk n stats)) (.src n) v (.src n)
      (Generator.handleRetStat (.terminator n 0) none) = v := fun _ ↦ rfl
  obtain ⟨globals, hinv, -⟩ := (hstats.terminator n
    hret rfl) init _ _ [] [] inv_init fun _ _ ↦ rfl
  refine ⟨globals, hinv.distinct, ?_⟩
  have hwork : addOps (.src n) (Generator.chunk n stats) =
      addOps (.src n) (Generator.statlist stats) ++
        [.op (.src n) (Generator.handleRetStat (.terminator n 0) none)] := by
    rw [Generator.chunk, addOps_append]
    rfl
  rw [resolveNames, visitAll, hwork]
  exact hinv.resolved

theorem DistinctGlobals.eq_of_cell {globals globals' : Globals} (h : DistinctGlobals globals)
    (h' : DistinctGlobals globals') {x : String} {d d' : Option Declaration} {c : Value OpId}
    (hcell : globals.cell x d = some c) (hcell' : globals'.cell x d' = some c) : d = d' := by
  cases d with
  | none =>
    cases d' with
    | none => rfl
    | some d' =>
      rw [Globals.cell, Option.some.injEq] at hcell'
      exact (h.ne_declaration x d' (hcell' ▸ hcell)).elim
  | some d =>
    rw [Globals.cell, Option.some.injEq] at hcell
    cases d' with
    | none => exact (h'.ne_declaration x d (hcell ▸ hcell')).elim
    | some d' =>
      rw [Globals.cell, Option.some.injEq] at hcell'
      rw [Declaration.cell_injective (hcell.trans hcell'.symm)]

/-- A name is resolved to one variable. -/
theorem SameDeclarations.eq {code : List (OpId × String × Value OpId)}
    {uses uses' : List (ℕ × String × Option Declaration)} (h : SameDeclarations code uses)
    (h' : SameDeclarations code uses') : uses = uses' := by
  obtain ⟨globals, hdistinct, hrefers⟩ := h
  obtain ⟨globals', hdistinct', hrefers'⟩ := h'
  induction hrefers generalizing uses' with
  | nil =>
    cases hrefers'
    rfl
  | @cons code use codes uses hhead htail ih =>
    cases hrefers' with
    | @cons _ use' _ uses' hhead' htail' =>
      obtain ⟨n, x, d⟩ := use
      obtain ⟨n', x', d'⟩ := use'
      obtain ⟨hop, hname, hcell⟩ := hhead
      obtain ⟨hop', hname', hcell'⟩ := hhead'
      have hn : n = n' := OpId.src.inj (hop.symm.trans hop')
      have hx : x = x' := hname.symm.trans hname'
      subst hn hx
      have hd : d = d' := hdistinct.eq_of_cell hdistinct' hcell hcell'
      rw [hd, ih htail']

/-- Names are resolved by the rules of Lua exactly if no local statement uses a name it declares in
its values and no local function uses its name in its body. -/
theorem resolveNames_iff {stats : List Stat} (hnodup : (Nodes.statlist stats).Nodup) (n : ℕ) :
    SameDeclarations (resolveNames n stats) ((Scoping.statlist stats).resolve fun _ ↦ none) ↔
      (Scoping.statlist stats).NoSelfReference := by
  have hcode := resolveNames_flip hnodup n
  rw [← Tree.resolve_flip_iff (Scoping.declaresIn_statlist stats hnodup).nodup]
  constructor
  · intro hlua
    exact hcode.eq hlua
  · intro heq
    rwa [← heq]

/-- `local x = 1; x = y; f(x)` -/
theorem resolveNames_iff_shadowedGlobal :
    let stats := [.localvarlist 0 ["x"] [.literal 1 (.number (.int 1))],
      .assignlist 2 [.name 3 "x"] [.var (.name 4 "y")],
      .functioncall 5 (.var (.name 6 "f")) [.var (.name 7 "x")]]
    SameDeclarations (resolveNames 8 stats) ((Scoping.statlist stats).resolve fun _ ↦ none) := by
  intro stats
  refine (resolveNames_iff ?_ 8).mpr ?_
  · decide
  simp [stats, Scoping.statlist, Scoping.stat, Scoping.explist, Scoping.exp, Scoping.varlist,
    Scoping.var, Tree.NoSelfReference, Tree.free]

/-- `local x = x` and `local function f() return f() end` -/
theorem resolveNames_selfReference :
    let initialValue := [.localvarlist 0 ["x"] [.var (.name 1 "x")]]
    let recursion := [.localnamedfunctiondef 0 "f"
      (.mk 1 [] (.mk [] (some [.call 2 (.var (.name 3 "f")) []])))]
    (¬ SameDeclarations (resolveNames 4 initialValue)
      ((Scoping.statlist initialValue).resolve fun _ ↦ none)) ∧
    ¬ SameDeclarations (resolveNames 4 recursion)
      ((Scoping.statlist recursion).resolve fun _ ↦ none) := by
  intro initialValue recursion
  constructor
  · rintro ⟨globals, hdistinct, hrefers⟩
    have hcode : resolveNames 4 initialValue =
        [(.src 1, "x", .res (OpId.allocLocal 0 0).alloc 0)] := by decide
    have hlua : ((Scoping.statlist initialValue).resolve fun _ ↦ none) = [(1, "x", none)] := rfl
    rw [hcode, hlua] at hrefers
    cases hrefers with
    | cons hhead htail => exact hdistinct.ne_declaration "x" (.localName 0 0) hhead.2.2
  · rintro ⟨globals, hdistinct, hrefers⟩
    have hcode : resolveNames 4 recursion =
        [(.src 3, "f", .res (OpId.src 3).alloc 0)] := by decide
    have hlua : ((Scoping.statlist recursion).resolve fun _ ↦ none) =
        [(3, "f", some (.localName 0 0))] := by
      decide
    rw [hcode, hlua] at hrefers
    cases hrefers with
    | cons hhead htail =>
      have hcell := hhead.2.2
      simp [Globals.cell, Declaration.cell, OpId.alloc, OpId.allocLocal] at hcell

end AllocVisitor

end DeclarativeMlir.Lua
