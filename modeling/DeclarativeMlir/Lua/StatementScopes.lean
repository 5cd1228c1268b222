import DeclarativeMlir.Lua.GeneratedUses
import DeclarativeMlir.Lua.NameResolution

/-!
# Scopes of statements

The visitor resolves the names in a statement from what it does to the parts of the statement:
assignments of any number of targets, local statements, and ops that open a scope with variables
of their own.
-/

namespace DeclarativeMlir.Lua

open LexicalScope

/-! ## Phrases that declare nothing -/

namespace Scoping

mutual

theorem after_var (env : ScopeEnv) : (v : Var) → (var v).after env = env
  | .name _ _ => rfl
  | .index _ tbl key => by rw [var, Tree.after, after_exp env tbl, after_exp env key]

theorem after_exp (env : ScopeEnv) : (e : Exp) → (exp e).after env = env
  | .literal _ _ => rfl
  | .unary _ _ val => after_exp env val
  | .binary _ _ lhs rhs => by rw [exp, Tree.after, after_exp env lhs, after_exp env rhs]
  | .var v => after_var env v
  | .paren e => after_exp env e
  | .call _ fcn args => by rw [exp, Tree.after, after_exp env fcn, after_explist env args]
  | .table _ fields => after_tableconstructor env fields
  | .functiondef (.mk _ _ _) => rfl

theorem after_explist (env : ScopeEnv) : (es : List Exp) → (explist es).after env = env
  | [] => rfl
  | e :: es => by rw [explist, Tree.after, after_exp env e, after_explist env es]

theorem after_tableconstructor (env : ScopeEnv) : (fields : List Field) →
    (tableconstructor fields).after env = env
  | [] => rfl
  | .keyed _ key val :: fields => by
    rw [tableconstructor, Tree.after, Tree.after, after_exp env key, after_exp env val,
      after_tableconstructor env fields]
  | .named _ _ val :: fields | .positional _ val :: fields => by
    rw [tableconstructor, Tree.after, after_exp env val, after_tableconstructor env fields]

end

theorem after_varlist (env : ScopeEnv) (vs : List Var) : (varlist vs).after env = env := by
  induction vs with
  | nil => rfl
  | cons v vs ih => rw [varlist, Tree.after, after_var env v, ih]

end Scoping

namespace AllocVisitor

variable {touched touched' fresh fresh' : List ℕ} {uses : List (Value OpId)}
  {main parent : OpId} {work work' : List Work} {s t : ScopeTree} {tgts tgts' : List (Value OpId)}

/-! ## Statements -/

/-- A run of the visitor behind which `tgts` stand for variables in scope or for table elements. -/
def VisitsTargets (uses : List (Value OpId)) (main : OpId) (fresh touched : List ℕ)
    (work : List Work) (t : ScopeTree) (tgts : List (Value OpId)) : Prop :=
  ∀ v globals env envs log, Inv v globals (env :: envs) log →
    (∀ op, op.origin ∈ fresh → v.parentOp op = none) →
    ∃ globals', Inv (work.foldl (visit uses main) v) globals' (t.after env :: envs)
        (log ++ t.flip.resolve env) ∧
      Extends touched v globals (work.foldl (visit uses main) v) globals' ∧
      ∀ tgt ∈ tgts, IsTarget globals' (t.after env) (work.foldl (visit uses main) v) tgt

theorem VisitsTargets.visits (h : VisitsTargets uses main fresh touched work t tgts) :
    Visits uses main fresh touched work t := by
  intro v globals env envs log hinv hnew
  obtain ⟨globals', hinv', hextends, -⟩ := h v globals env envs log hinv hnew
  exact ⟨globals', hinv', hextends⟩

theorem Visits.targets (h : Visits uses main fresh touched work t) :
    VisitsTargets uses main fresh touched work t [] := by
  intro v globals env envs log hinv hnew
  obtain ⟨globals', hinv', hextends⟩ := h v globals env envs log hinv hnew
  exact ⟨globals', hinv', hextends, fun _ hmem ↦ by contradiction⟩

theorem VisitsTargets.seq (h : VisitsTargets uses main fresh touched work s tgts)
    (h' : VisitsTargets uses main fresh' touched' work' t tgts')
    (hdisjoint : touched.Disjoint fresh')
    (htgts : ∀ tgt ∈ tgts, (∃ n, tgt = .res (.src n) 0 ∧ n ∉ touched') ∧
      ∀ env, t.after env = env) :
    VisitsTargets uses main (fresh ++ fresh') (touched ++ touched') (work ++ work') (.seq s t)
      (tgts ++ tgts') := by
  intro v globals env envs log hinv hnew
  obtain ⟨globals₁, hinv₁, hextends₁, htargets₁⟩ :=
    h v globals env envs log hinv fun op hop ↦ hnew op (List.mem_append_left _ hop)
  have hnew' : ∀ op, op.origin ∈ fresh' →
      (work.foldl (visit uses main) v).parentOp op = none := by
    intro op hop
    rw [hextends₁.parentOp op fun hmem ↦ hdisjoint hmem hop]
    exact hnew op (List.mem_append_right _ hop)
  obtain ⟨globals₂, hinv₂, hextends₂, htargets₂⟩ := h' _ globals₁ _ envs _ hinv₁ hnew'
  rw [List.foldl_append]
  refine ⟨globals₂, ?_, hextends₁.trans hextends₂, ?_⟩
  · rw [Tree.after, Tree.flip, Tree.resolve, Tree.after_flip, ← List.append_assoc]
    exact hinv₂
  · intro tgt htgt
    rw [Tree.after]
    rcases List.mem_append.mp htgt with htgt | htgt
    · obtain ⟨⟨n, rfl, hn⟩, hafter⟩ := htgts tgt htgt
      rw [hafter]
      exact (htargets₁ _ htgt).mono hextends₂ hn
    · exact htargets₂ tgt htgt

theorem Visits.seqTargets (h : Visits uses main fresh touched work s)
    (h' : VisitsTargets uses main fresh' touched' work' t tgts)
    (hdisjoint : touched.Disjoint fresh') :
    VisitsTargets uses main (fresh ++ fresh') (touched ++ touched') (work ++ work') (.seq s t)
      tgts := by
  apply h.targets.seq h' hdisjoint
  intro tgt htgt
  contradiction

/-- The assignment list of the node `n` behind its targets and values. -/
theorem VisitsTargets.handleAssignList (h : VisitsTargets uses main fresh touched work t tgts)
    (n : ℕ) (exps : List Exp) :
    Visits uses main fresh (touched ++ [n])
      (work ++ addOps parent (Generator.handleAssignList n tgts exps)) t := by
  intro v globals env envs log hinv hnew
  obtain ⟨globals', hinv', hextends, htargets⟩ := h v globals env envs log hinv hnew
  rw [addOps_handleAssignList, List.foldl_append, List.foldl_cons, List.foldl_cons]
  obtain ⟨hassigned, hextends'⟩ :=
    ((hinv'.visited (.concat n) parent).visited (.unpack n) parent).assigns uses main parent
      (n := n) tgts.zipIdx fun tgt i hmem ↦ htargets tgt (List.fst_mem_of_mem_zipIdx hmem)
  have hconcat := Extends.visited (work.foldl (visit uses main) v) globals' (.concat n) parent
  have hunpack := Extends.visited
    { work.foldl (visit uses main) v with
      parentOp := Function.update (work.foldl (visit uses main) v).parentOp (.concat n)
        (some parent) } globals' (.unpack n) parent
  refine ⟨globals', hassigned, ?_⟩
  have hall := ((hextends.trans hconcat).trans hunpack).trans hextends'
  exact hall.mono (by simp [OpId.origin, OpId.concat, OpId.unpack])

/-- Values of `lua.unpack` are never replaced. -/
theorem count_replaced {v : AllocVisitor} {globals : Globals} {envs : List ScopeEnv}
    {log : List (ℕ × String × Option Declaration)} (hinv : Inv v globals envs log) {n i : ℕ}
    (hval : v.replaced (.res (.unpack n) i) = .res (.unpack n) i) :
    (uses.map v.replaced).count (.res (.unpack n) i) = uses.count (.res (.unpack n) i) := by
  unfold List.count
  rw [List.countP_map]
  apply List.countP_congr
  intro val _
  simp only [Function.comp_apply, beq_iff_eq]
  constructor
  · intro heq
    rcases hinv.replaced val with hsame | ⟨x, cell, hstands⟩
    · exact hsame.symm.trans heq
    · rw [heq] at hstands
      generalize hvalue : Value.res (OpId.unpack n) i = value at hstands
      cases hstands with
      | arg block j => contradiction
      | alloc op parent halloc => simp [OpId.unpack, OpId.alloc] at hvalue
      | assign m j => simp [OpId.unpack, OpId.assign] at hvalue
  · rintro rfl
    exact hval

theorem zipIdx_range_eq (n : ℕ) (names : List String) :
    (((List.range names.length).map fun i ↦ (.res (.allocLocal n i) 0 : Value OpId))).zipIdx =
      names.zipIdx.map fun (_, i) ↦ (.res (.allocLocal n i) 0, i) := by
  apply List.ext_getElem
  · simp
  · intro i hi hi'
    simp

/-- A local statement declares its names in front of the values. -/
theorem Visits.localvarlist (h : Visits uses main fresh touched work t)
    (hafter : ∀ env, t.after env = env) {n : ℕ} (hfresh : n ∉ fresh) (htouched : n ∉ touched)
    (names : List String) (exps : List Exp)
    (hone : ∀ i < names.length, uses.count (.res (.unpack n) i) = 1) :
    Visits uses main (n :: fresh) (n :: touched)
      (addOps parent (Generator.allocLocals n names) ++ (work ++
        addOps parent (Generator.handleAssignList n
          ((List.range names.length).map fun i ↦ .res (.allocLocal n i) 0) exps)))
      (.bind false (Scoping.localNames n names) t) := by
  intro v globals env envs log hinv hnew
  obtain ⟨hinv₁, hextends₁, hlocals₁, hframe⟩ :=
    hinv.allocLocals uses main parent n names 0 fun i _ ↦ hnew _ List.mem_cons_self
  have hnew₁ : ∀ op, op.origin ∈ fresh → ((allocLocalsWork n parent names.zipIdx).foldl
      (visit uses main) v).parentOp op = none := by
    intro op hop
    have hne : op.origin ∉ [n] := by
      rw [List.mem_singleton]
      rintro heq
      exact hfresh (heq ▸ hop)
    rw [hextends₁.parentOp op hne]
    exact hnew op (List.mem_cons_of_mem n hop)
  obtain ⟨globals₂, hinv₂, hextends₂⟩ := h _ globals _ envs log hinv₁ hnew₁
  rw [hafter] at hinv₂
  have hlocals₂ := hlocals₁.extends hextends₂ htouched
  set v₂ := work.foldl (visit uses main)
    ((allocLocalsWork n parent names.zipIdx).foldl (visit uses main) v) with hv₂
  have hunpack : v₂.parentOp (.unpack n) = none := by
    have hne : ∀ i, 0 ≤ i → OpId.unpack n ≠ .allocLocal n i := by
      intro i _
      simp [OpId.unpack, OpId.allocLocal]
    rw [hextends₂.parentOp (.unpack n) htouched, (hframe _ hne).1]
    exact hnew _ List.mem_cons_self
  have hvals : ∀ i, v₂.replaced (.res (.unpack n) i) = .res (.unpack n) i :=
    fun i ↦ hinv₂.unvisited _ i hunpack
  have hcount : ∀ x i, (x, i) ∈ names.zipIdx →
      (uses.map v₂.replaced).count (.res (.unpack n) i) = 1 := by
    intro x i hmem
    rw [count_replaced hinv₂ (hvals i)]
    exact hone i (List.snd_lt_of_mem_zipIdx hmem)
  obtain ⟨hassigned, hextends₃⟩ :=
    ((hinv₂.visited (.concat n) parent).visited (.unpack n) parent).localAssigns uses main parent
      names.zipIdx hlocals₂ hcount hvals (Function.update_self _ _ _)
  rw [Env.extend_extend] at hassigned
  rw [addOps_allocLocals, addOps_handleAssignList, zipIdx_range_eq, List.foldl_append,
    List.foldl_append, List.foldl_cons, List.foldl_cons]
  refine ⟨globals₂, hassigned, ?_⟩
  · have hconcat := Extends.visited v₂ globals₂ (.concat n) parent
    have hunpack' := Extends.visited
      { v₂ with parentOp := Function.update v₂.parentOp (.concat n) (some parent) }
      globals₂ (.unpack n) parent
    have hall := (((hextends₁.trans hextends₂).trans hconcat).trans hunpack').trans hextends₃
    exact hall.mono (by simp [OpId.origin, OpId.concat, OpId.unpack])

theorem VisitsTargets.getOrAlloc (parent : OpId) (n : ℕ) (x : String) :
    VisitsTargets uses main [n] [n]
      [.op parent (Generator.create (.src n) .get_or_alloc (.str x) [] 1)] (.use n x)
      [.res (.src n) 0] := by
  intro v globals env envs log hinv hnew
  obtain ⟨globals', hinv', hextends, htarget⟩ :=
    hinv.visit_getOrAlloc uses main parent (hnew (.src n) (List.mem_singleton_self n)) x
  refine ⟨globals', hinv', hextends, fun tgt htgt ↦ ?_⟩
  rw [List.mem_singleton.mp htgt]
  exact htarget

/-- A local variable is a target as soon as it has been allocated. -/
theorem VisitsTargets.allocLocal (parent : OpId) (n : ℕ) (x : String) :
    VisitsTargets uses main [n] [n] (addOps parent (Generator.allocLocals n [x]))
      (.bind false (Scoping.localNames n [x]) .skip) [.res (.allocLocal n 0) 0] := by
  intro v globals env envs log hinv hnew
  obtain ⟨hinv', hextends, hlocals, -⟩ :=
    hinv.allocLocals uses main parent n [x] 0 fun i _ ↦ hnew _ List.mem_cons_self
  rw [addOps_allocLocals, Tree.flip, Tree.flip, Tree.resolve, Tree.resolve, List.append_nil]
  refine ⟨globals, hinv', hextends, fun tgt htgt ↦ ?_⟩
  obtain ⟨hreplaced, halloc⟩ := hlocals x 0 List.mem_cons_self
  rw [List.mem_singleton.mp htgt]
  refine .inl ⟨x, _, .alloc (.allocLocal n 0) parent halloc, hreplaced, ?_⟩
  simp [Tree.after, Scoping.localNames, Scoping.declare, Globals.cell, Declaration.cell]

theorem Visits.allocLocals (parent : OpId) (n : ℕ) (names : List String) :
    Visits uses main [n] [n] (addOps parent (Generator.allocLocals n names))
      (.bind false (Scoping.localNames n names) .skip) := by
  intro v globals env envs log hinv hnew
  obtain ⟨hinv', hextends, -, -⟩ :=
    hinv.allocLocals uses main parent n names 0 fun i _ ↦ hnew _ List.mem_cons_self
  rw [addOps_allocLocals, Tree.flip, Tree.flip, Tree.resolve, Tree.resolve, List.append_nil]
  exact ⟨globals, hinv', hextends⟩

theorem VisitsTargets.assign (h : VisitsTargets uses main fresh touched work t tgts)
    (parent : OpId) {tgt : Value OpId} (htgt : tgt ∈ tgts) (n i : ℕ) (val : Value OpId) :
    Visits uses main fresh (touched ++ [n])
      (work ++ [.op parent (Generator.create (.assign n i) .assign .none [tgt, val] 1)]) t := by
  intro v globals env envs log hinv hnew
  obtain ⟨globals', hinv', hextends, htargets⟩ := h v globals env envs log hinv hnew
  rw [List.foldl_append, List.foldl_cons, List.foldl_nil]
  exact ⟨globals', hinv'.visit_assign uses main parent (htargets tgt htgt) n i val,
    hextends.trans (Extends.assign uses main parent _ globals' n i tgt val)⟩

/-- An op that opens the scope of its body with its own variables. -/
theorem Visits.scopeOf {n : ℕ} {params : List String} {op : Op OpId}
    (h : Visits uses main fresh touched work t) (hid : op.id = .src n)
    (hvisit : ∀ v, visitOp uses main v parent op = v.visitArguments (.src n) params)
    (hn : n ∉ fresh) :
    Visits uses main fresh (n :: touched) (.pushScope :: .op parent op :: work ++ [.popScope])
      (Scoping.scopeOf n params t) :=
  ((Visits.arguments hid hvisit).seq h (List.singleton_disjoint.mpr hn)).block

/-- A table element is no variable. -/
theorem VisitsTargets.tableGet {n : ℕ} {operands : List (Value OpId)}
    (h : Visits uses main fresh touched work t) (hn : n ∉ touched) :
    VisitsTargets uses main (n :: fresh) (n :: touched)
      (work ++ [.op parent (Generator.create (.src n) .table_get .none operands 1)]) t
      [.res (.src n) 0] := by
  intro v globals env envs log hinv hnew
  obtain ⟨globals', hinv', hextends⟩ :=
    h v globals env envs log hinv fun op hop ↦ hnew op (List.mem_cons_of_mem n hop)
  rw [List.foldl_append, List.foldl_cons, List.foldl_nil]
  refine ⟨globals', hinv'.visited (.src n) parent, ?_, ?_⟩
  · exact (hextends.trans (.visited _ globals' (.src n) parent)).mono (by simp [OpId.origin])
  · intro tgt htgt
    rw [List.mem_singleton.mp htgt]
    apply Or.inr
    use n
    apply hinv'.unvisited
    rw [hextends.parentOp (.src n) hn]
    exact hnew (.src n) List.mem_cons_self

/-- The `lua.call` behind the function and its arguments. -/
theorem Visits.handleCall (h : Visits uses main fresh touched work t) (parent : OpId) (n : ℕ)
    (fcn : Exp) (args : List Exp) :
    Visits uses main fresh (touched ++ [n])
      (work ++ addOps parent (Generator.handleCall n fcn args)) t := by
  rw [Generator.handleCall, Generator.makeConcat, addOps_create rfl, addOps_create rfl]
  rw [List.append_cons work]
  exact Visits.mono ((h.append_plain fun _ ↦ rfl).append_plain fun _ ↦ rfl)
    (List.Subset.refl _) (by simp [OpId.origin, OpId.concat, Generator.create])

/-- A field of a table before the rest of them. -/
theorem Visits.setField {m : ℕ} {set : Op OpId} (h : Visits uses main fresh touched work s)
    (h' : Visits uses main fresh' touched' work' t) (hdisjoint : (m :: touched).Disjoint fresh')
    (hset : ∀ v, visitOp uses main v parent set = v) (horigin : set.id.origin = m) :
    Visits uses main (fresh ++ fresh') (m :: touched ++ touched')
      (work ++ .op parent set :: work') (.seq s t) := by
  have hfield := h.append_plain hset
  rw [horigin] at hfield
  rw [List.append_cons work]
  exact hfield.seq h' hdisjoint

/-- A field whose key is implicit. -/
theorem Visits.implicitField {m : ℕ} {key set : Op OpId}
    (h : Visits uses main fresh touched work s) (h' : Visits uses main fresh' touched' work' t)
    (hdisjoint : (m :: touched).Disjoint fresh') (hm : m ∉ fresh)
    (hkey : ∀ v, visitOp uses main v parent key = v) (hkeyOrigin : key.id.origin = m)
    (hset : ∀ v, visitOp uses main v parent set = v) (hsetOrigin : set.id.origin = m) :
    Visits uses main (fresh ++ fresh') (m :: touched ++ touched')
      (.op parent key :: (work ++ .op parent set :: work')) (.seq s t) := by
  have hdisjoint' : (m :: m :: touched).Disjoint fresh' := by
    simpa using hdisjoint
  have hfield := (Visits.plain_cons hkey hkeyOrigin h hm).setField h' hdisjoint' hset hsetOrigin
  exact hfield.mono (List.Subset.refl _) (by simp)

end AllocVisitor

end DeclarativeMlir.Lua
