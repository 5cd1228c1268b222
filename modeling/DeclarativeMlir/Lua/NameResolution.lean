import DeclarativeMlir.Lua.AllocScoping

/-!
# Name resolution of generated code

Visiting the worklist of a phrase resolves its names like the scope tree of the phrase, except that
every declaration makes the other choice: the generator declares the names of a local statement in
front of the initial values, and the name of a local function behind its body.
-/

namespace DeclarativeMlir.Lua

open LexicalScope

/-! ## Worklists -/

theorem addOps_append (parent : OpId) (ops ops' : List (Op OpId)) :
    addOps parent (ops ++ ops') = addOps parent ops ++ addOps parent ops' := by
  induction ops with
  | nil => rfl
  | cons op ops ih => rw [List.cons_append, addOps, addOps, ih, List.append_assoc]

theorem checkWork_create {name : OpName} (hname : bindsArguments name = false) (parent id : OpId)
    (attr : Attr) (operands : List (Value OpId)) (numResults : ℕ) :
    checkWork parent (Generator.create id name attr operands numResults) =
      [.op parent (Generator.create id name attr operands numResults)] := by
  simp [Generator.create, checkWork, hname, addRegions]

theorem addOps_create {name : OpName} (hname : bindsArguments name = false) (parent id : OpId)
    (attr : Attr) (operands : List (Value OpId)) (numResults : ℕ) (ops : List (Op OpId)) :
    addOps parent (Generator.create id name attr operands numResults :: ops) =
      .op parent (Generator.create id name attr operands numResults) :: addOps parent ops := by
  rw [addOps, checkWork_create hname, List.singleton_append]

theorem checkWork_regions {name : OpName} (hname : bindsArguments name = false)
    (parent id : OpId) (attr : Attr) (operands : List (Value OpId)) (numResults : ℕ)
    (successors : List (BlockId OpId)) (regions : List (Region OpId)) :
    checkWork parent (.mk id name attr operands numResults successors regions) =
      .op parent (.mk id name attr operands numResults successors regions) ::
        addRegions id regions := by
  rw [checkWork, hname]
  rfl

theorem checkWork_arguments {name : OpName} (hname : bindsArguments name = true)
    (parent id : OpId) (attr : Attr) (operands : List (Value OpId)) (numResults : ℕ)
    (successors : List (BlockId OpId)) (label : OpId) (i numArgs : ℕ) (ops : List (Op OpId)) :
    checkWork parent (.mk id name attr operands numResults successors
        [Generator.entryRegion label i numArgs ops]) =
      .pushScope :: .op parent (.mk id name attr operands numResults successors
        [Generator.entryRegion label i numArgs ops]) :: addOps id ops ++ [.popScope] := by
  rw [checkWork, if_pos hname, addFirstRegion, Generator.entryRegion, addRegion]

theorem addRegions_entryRegion (parent label : OpId) (i numArgs : ℕ) (ops : List (Op OpId))
    (regions : List (Region OpId)) :
    addRegions parent (Generator.entryRegion label i numArgs ops :: regions) =
      (.pushScope :: addOps parent ops ++ [.popScope]) ++ addRegions parent regions := by
  simp [addRegions, Generator.entryRegion, addRegion]

namespace AllocVisitor

variable {v v' v'' : AllocVisitor} {globals globals' globals'' : Globals} {env : ScopeEnv}
  {envs : List ScopeEnv} {log : List (ℕ × String × Option Declaration)}
  {touched touched' fresh fresh' : List ℕ} {x : String} {ref : Reference}
  {uses : List (Value OpId)} {main parent : OpId} {work work' : List Work} {s t : ScopeTree}

/-! ## Runs of the visitor -/

/-- The run over `work` resolves the names in `t`. It visits ops of the nodes `touched`, and relies
on those of `fresh` not having been visited before. -/
def Visits (uses : List (Value OpId)) (main : OpId) (fresh touched : List ℕ) (work : List Work)
    (t : ScopeTree) : Prop :=
  ∀ v globals env envs log, Inv v globals (env :: envs) log →
    (∀ op, op.origin ∈ fresh → v.parentOp op = none) →
    ∃ globals', Inv (work.foldl (visit uses main) v) globals' (t.after env :: envs)
        (log ++ t.flip.resolve env) ∧
      Extends touched v globals (work.foldl (visit uses main) v) globals'

theorem Visits.nil : Visits uses main [] [] [] .skip := by
  intro v globals env envs log hinv _
  exact ⟨globals, by simpa [Tree.flip, Tree.resolve, Tree.after] using hinv, .refl⟩

theorem Visits.mono (h : Visits uses main fresh touched work t) (hfresh : fresh ⊆ fresh')
    (htouched : touched ⊆ touched') : Visits uses main fresh' touched' work t := by
  intro v globals env envs log hinv hnew
  obtain ⟨globals', hinv', hextends⟩ :=
    h v globals env envs log hinv fun op hop ↦ hnew op (hfresh hop)
  exact ⟨globals', hinv', hextends.mono htouched⟩

theorem Visits.seq (h : Visits uses main fresh touched work s)
    (h' : Visits uses main fresh' touched' work' t) (hdisjoint : touched.Disjoint fresh') :
    Visits uses main (fresh ++ fresh') (touched ++ touched') (work ++ work') (.seq s t) := by
  intro v globals env envs log hinv hnew
  obtain ⟨globals₁, hinv₁, hextends₁⟩ :=
    h v globals env envs log hinv fun op hop ↦ hnew op (List.mem_append_left _ hop)
  have hnew' : ∀ op, op.origin ∈ fresh' →
      (work.foldl (visit uses main) v).parentOp op = none := by
    intro op hop
    rw [hextends₁.parentOp op fun hmem ↦ hdisjoint hmem hop]
    exact hnew op (List.mem_append_right _ hop)
  obtain ⟨globals₂, hinv₂, hextends₂⟩ := h' _ globals₁ _ envs _ hinv₁ hnew'
  refine ⟨globals₂, ?_, ?_⟩
  · rw [List.foldl_append, Tree.after, Tree.flip, Tree.resolve, Tree.after_flip,
      ← List.append_assoc]
    exact hinv₂
  · rw [List.foldl_append]
    exact hextends₁.trans hextends₂

theorem Visits.congr (h : Visits uses main fresh touched work s)
    (hafter : ∀ env, s.after env = t.after env)
    (hresolve : ∀ env, s.flip.resolve env = t.flip.resolve env) :
    Visits uses main fresh touched work t := by
  intro v globals env envs log hinv hnew
  rw [← hafter, ← hresolve]
  exact h v globals env envs log hinv hnew

theorem Visits.block (h : Visits uses main fresh touched work t) :
    Visits uses main fresh touched (.pushScope :: work ++ [.popScope]) (.block t) := by
  intro v globals env envs log hinv hnew
  obtain ⟨globals', hinv', hextends⟩ := h _ globals env (env :: envs) log hinv.pushScope hnew
  rw [List.cons_append, List.foldl_cons, List.foldl_append]
  refine ⟨globals', hinv'.popScope, ?_⟩
  exact ⟨hextends.globals, hextends.allocs, hextends.replaced, hextends.parentOp⟩

theorem Extends.visited (v : AllocVisitor) (globals : Globals) (op parent : OpId) :
    Extends [op.origin] v globals
      { v with parentOp := Function.update v.parentOp op (some parent) } globals where
  globals _ _ hc := hc
  allocs _ _ hq := hq
  replaced _ _ _ := rfl
  parentOp op' hop' := by
    have hne : op' ≠ op := by
      rintro rfl
      exact hop' (List.mem_singleton_self _)
    exact Function.update_of_ne hne _ _

/-- Ops that the visitor passes over. -/
theorem Visits.plain {op : Op OpId} (hplain : ∀ v, visitOp uses main v parent op = v) :
    Visits uses main [] [op.id.origin] [.op parent op] .skip := by
  intro v globals env envs log hinv _
  rw [List.foldl_cons, List.foldl_nil, visit, hplain]
  refine ⟨globals, ?_, .visited v globals op.id parent⟩
  simpa [Tree.flip, Tree.resolve, Tree.after] using hinv.visited op.id parent

theorem Visits.append_plain {op : Op OpId} (h : Visits uses main fresh touched work t)
    (hplain : ∀ v, visitOp uses main v parent op = v) :
    Visits uses main fresh (op.id.origin :: touched) (work ++ [.op parent op]) t := by
  have hseq := h.seq (Visits.plain hplain) (List.disjoint_nil_right _)
  have hsame : Visits uses main (fresh ++ []) (touched ++ [op.id.origin])
      (work ++ [.op parent op]) t :=
    hseq.congr (fun _ ↦ rfl) fun env ↦ by simp [Tree.flip, Tree.resolve]
  exact hsame.mono (by simp) (by simp)

/-- The terminator of a block that belongs to the node `n`. -/
theorem Visits.terminator {op : Op OpId} (n : ℕ) (h : Visits uses main fresh touched work t)
    (hplain : ∀ v, visitOp uses main v parent op = v) (horigin : op.id.origin = n) :
    Visits uses main fresh (n :: touched) (work ++ [.op parent op]) t := by
  rw [← horigin]
  exact h.append_plain hplain

/-- An op of the node `n` in front of its regions. -/
theorem Visits.plain_cons {op : Op OpId} {n : ℕ} (hplain : ∀ v, visitOp uses main v parent op = v)
    (horigin : op.id.origin = n) (h : Visits uses main fresh touched work t) (hfresh : n ∉ fresh) :
    Visits uses main fresh (n :: touched) (.op parent op :: work) t := by
  rw [← horigin] at hfresh ⊢
  have hseq := (Visits.plain hplain).seq h (List.singleton_disjoint.mpr hfresh)
  exact hseq.congr (fun _ ↦ rfl) fun env ↦ by simp [Tree.flip, Tree.resolve, Tree.after]

/-! ## Uses of names -/

theorem exists_mem_of_lookup {scopes : ScopedMap} (hlookup : scopes.lookup x = some ref) :
    ∃ scope ∈ scopes, scope x = some ref := by
  induction scopes with
  | nil => contradiction
  | cons scope scopes ih =>
    cases hx : scope x with
    | none =>
      simp only [ScopedMap.lookup, hx] at hlookup
      obtain ⟨scope', hmem, heq⟩ := ih hlookup
      exact ⟨scope', List.mem_cons_of_mem _ hmem, heq⟩
    | some ref' =>
      simp only [ScopedMap.lookup, hx] at hlookup
      exact ⟨scope, List.mem_cons_self, hx.trans hlookup⟩

/-- Every name has a value once its global has been created. -/
theorem Inv.ensureAlloc (main : OpId) {n : ℕ} (h : Inv v globals (env :: envs) log)
    (hop : v.parentOp (.src n) ≠ none) (hnew : v.allocs (OpId.src n).alloc = none)
    (hglobals : ∀ y, globals y ≠ some (.res (OpId.src n).alloc 0)) (x : String) :
    ∃ globals', Inv (v.ensureAlloc main (.src n) x) globals' (env :: envs) log ∧
      Extends [] v globals (v.ensureAlloc main (.src n) x) globals' ∧
      ((v.ensureAlloc main (.src n) x).scope.lookup x).isSome := by
  unfold AllocVisitor.ensureAlloc
  by_cases hcontains : v.scope.contains x = true
  · rw [if_pos hcontains]
    exact ⟨globals, h, .refl, hcontains⟩
  · rw [if_neg hcontains]
    have hlookup : v.scope.lookup x = none := by
      simpa [ScopedMap.contains] using hcontains
    have halloc := h.createAlloc hop hnew x main
    have hself : (v.createAlloc (.src n) x main).allocs (OpId.src n).alloc = some (x, main) := by
      simp
    refine ⟨_, halloc.setGlobal hlookup hop hself hglobals, ?_, ?_⟩
    · exact ⟨Globals.le_update (h.agree.eq_none hlookup) _, createAlloc_le hnew x main, fun _ _ _ ↦ rfl,
        fun _ _ ↦ rfl⟩
    · have hset := ScopedMap.lookup_setGlobal h.agree.ne_nil hlookup
        (.ofCell (.res (OpId.src n).alloc 0))
      change (ScopedMap.lookup (v.scope.setGlobal x _) x).isSome
      rw [hset, Function.update_self]
      rfl

/-- The value stands for a variable, or for an element of a table. -/
def IsTarget (globals : Globals) (env : ScopeEnv) (v : AllocVisitor) (val : Value OpId) : Prop :=
  (∃ x ref, StandsFor v.allocs x ref ∧ v.replaced val = ref.value ∧
      globals.cell x (env x) = some ref.cell) ∨
    ∃ n, v.replaced val = .res (.src n) 0

theorem IsTarget.mono {op : OpId} {i : ℕ} (h : IsTarget globals env v (.res op i))
    (hextends : Extends touched v globals v' globals') (hop : op.origin ∉ touched) :
    IsTarget globals' env v' (.res op i) := by
  have hreplaced := hextends.replaced op i hop
  rcases h with ⟨x, ref, hstands, hvalue, hcell⟩ | ⟨n, hvalue⟩
  · exact .inl ⟨x, ref, hstands.mono hextends.allocs, hreplaced.trans hvalue,
      hextends.globals.cell hcell⟩
  · exact .inr ⟨n, hreplaced.trans hvalue⟩

/-- A use is resolved to the variable that its name refers to. -/
theorem Inv.visitGetOrAlloc (main : OpId) {n : ℕ} (h : Inv v globals (env :: envs) log)
    (hop : v.parentOp (.src n) ≠ none) (hnew : v.allocs (OpId.src n).alloc = none)
    (hglobals : ∀ y, globals y ≠ some (.res (OpId.src n).alloc 0)) (x : String) :
    ∃ globals', Inv (v.visitGetOrAlloc main (.src n) x) globals' (env :: envs)
        (log ++ [(n, x, env x)]) ∧
      Extends [n] v globals (v.visitGetOrAlloc main (.src n) x) globals' ∧
      IsTarget globals' env (v.visitGetOrAlloc main (.src n) x) (.res (.src n) 0) := by
  obtain ⟨globals', hinv, hextends, hsome⟩ := h.ensureAlloc main hop hnew hglobals x
  obtain ⟨ref, hlookup⟩ := Option.isSome_iff_exists.mp hsome
  obtain ⟨scope, hscope, hx⟩ := exists_mem_of_lookup hlookup
  have hstands := hinv.standsFor scope hscope x ref hx
  have hcell : globals'.cell x (env x) = some ref.cell := by
    rw [← hinv.agree.lookup x, hlookup]
    rfl
  have hop' : (v.ensureAlloc main (.src n) x).parentOp (.src n) ≠ none := by
    rwa [hextends.parentOp (.src n) List.not_mem_nil]
  have hreplace := hinv.replace hop' hstands
  unfold AllocVisitor.visitGetOrAlloc
  simp only [hlookup]
  refine ⟨globals', { hreplace with resolved := ?_ }, ?_, ?_⟩
  · exact List.rel_append hreplace.resolved (.cons ⟨rfl, rfl, hcell⟩ .nil)
  · refine ⟨hextends.globals, hextends.allocs, fun op i horigin ↦ ?_,
      fun op _ ↦ hextends.parentOp op List.not_mem_nil⟩
    have hne : Value.res op i ≠ .res (.src n) 0 := by
      intro heq
      rw [Value.res.injEq] at heq
      rw [heq.1] at horigin
      exact horigin (List.mem_singleton_self n)
    simp only [replaced_replace, Function.update_of_ne hne]
    exact hextends.replaced op i List.not_mem_nil
  · refine .inl ⟨x, ref, hstands, ?_, hcell⟩
    simp only [replaced_replace, Function.update_self]

/-- The same, from before the visit. -/
theorem Inv.visit_getOrAlloc (uses : List (Value OpId)) (main parent : OpId)
    (h : Inv v globals (env :: envs) log) {n : ℕ} (hop : v.parentOp (.src n) = none) (x : String) :
    let v' := visit uses main v
      (.op parent (Generator.create (.src n) .get_or_alloc (.str x) [] 1))
    ∃ globals', Inv v' globals' (env :: envs) (log ++ [(n, x, env x)]) ∧
      Extends [n] v globals v' globals' ∧ IsTarget globals' env v' (.res (.src n) 0) := by
  have hself : Function.update v.parentOp (.src n) (some parent) (.src n) ≠ none := by simp
  have hglobals : ∀ y, globals y ≠ some (.res (OpId.src n).alloc 0) := by
    intro y hy
    obtain ⟨m, heq, hvisited⟩ := h.globalAlloc y _ hy
    simp only [OpId.alloc, Value.res.injEq, OpId.new.injEq, OpId.src.injEq, and_true] at heq
    rw [← heq] at hvisited
    exact hvisited hop
  obtain ⟨globals', hinv, hextends, htarget⟩ :=
    (h.visited (.src n) parent).visitGetOrAlloc main hself (h.allocs_unvisited hop)
      hglobals x
  have hvisited := (Extends.visited v globals (.src n) parent).trans hextends
  exact ⟨globals', hinv, hvisited.mono (by simp [OpId.origin]), htarget⟩

theorem Visits.getOrAlloc (n : ℕ) (x : String) :
    Visits uses main [n] [n]
      [.op parent (Generator.create (.src n) .get_or_alloc (.str x) [] 1)] (.use n x) := by
  intro v globals env envs log hinv hnew
  obtain ⟨globals', hinv', hextends, -⟩ :=
    hinv.visit_getOrAlloc uses main parent (hnew (.src n) (List.mem_singleton_self n)) x
  exact ⟨globals', hinv', hextends⟩

/-! ## Declarations -/

/-- The arguments of a region become its first variables. -/
theorem Inv.visitArguments {n : ℕ} (params : List String) (k : ℕ)
    (h : Inv v globals (env :: envs) log) :
    let v' := (params.zipIdx k).foldl
      (fun v (x, i) ↦ v.setLocal x (.ofCell (.arg (.entry (.src n) 0) i))) v
    Inv v' globals
      (env.extend ((params.zipIdx k).map fun (x, i) ↦ (x, .param n i)) :: envs) log ∧
        v'.replaced = v.replaced ∧ v'.allocs = v.allocs ∧ v'.parentOp = v.parentOp := by
  induction params generalizing v env k with
  | nil => exact ⟨h, rfl, rfl, rfl⟩
  | cons x params ih =>
    have hset : Inv (v.setLocal x (.ofCell (.arg (.entry (.src n) 0) k))) globals
        (Function.update env x (some (.param n k)) :: envs) log := by
      apply h.setLocal
      · exact .arg _ _ _
      · rw [Function.update_self]
        rfl
      · intro y hy
        exact Function.update_of_ne hy _ _
    exact ih (k + 1) hset

theorem Visits.arguments {n : ℕ} {params : List String} {op : Op OpId} (hid : op.id = .src n)
    (hvisit : ∀ v, visitOp uses main v parent op = v.visitArguments (.src n) params) :
    Visits uses main [] [n] [.op parent op] (.bind false (Scoping.params n params) .skip) := by
  intro v globals env envs log hinv _
  obtain ⟨hargs, hreplaced, hallocs, hparent⟩ :=
    (hinv.visited op.id parent).visitArguments (n := n) params 0
  have hvisited := Extends.visited v globals op.id parent
  rw [List.foldl_cons, List.foldl_nil, visit, hvisit]
  refine ⟨globals, ?_, ?_⟩
  · rw [Tree.flip, Tree.flip, Tree.resolve, Tree.resolve, List.append_nil]
    exact hargs
  · refine ⟨hvisited.globals, ?_, ?_, ?_⟩
    · intro op' q hq
      rw [AllocVisitor.visitArguments, hallocs]
      exact hq
    · intro op' i _
      rw [AllocVisitor.visitArguments, hreplaced]
    · intro op' hop'
      rw [AllocVisitor.visitArguments, hparent]
      exact hvisited.parentOp op' (by rwa [hid])

theorem Inv.visitAllocLocal {n i : ℕ} (h : Inv v globals (env :: envs) log)
    (hop : v.parentOp (.allocLocal n i) ≠ none)
    (hnew : v.allocs (OpId.allocLocal n i).alloc = none) (parent : OpId) (x : String) :
    Inv (v.visitAllocLocal parent (.allocLocal n i) x) globals
      (Function.update env x (some (.localName n i)) :: envs) log := by
  have halloc := h.createAlloc hop hnew x parent
  have hself : (v.createAlloc (.allocLocal n i) x parent).allocs (OpId.allocLocal n i).alloc =
      some (x, parent) := by simp
  have hstands := StandsFor.alloc (OpId.allocLocal n i) parent hself
  have hset : Inv ((v.createAlloc (.allocLocal n i) x parent).setLocal x
      (.ofCell (.res (OpId.allocLocal n i).alloc 0))) globals
      (Function.update env x (some (.localName n i)) :: envs) log := by
    apply halloc.setLocal hstands
    · rw [Function.update_self]
      rfl
    · intro y hy
      exact Function.update_of_ne hy _ _
  exact hset.replace hop hstands

/-- The variables of a local statement have been allocated. -/
def LocalsAllocated (v : AllocVisitor) (n : ℕ) (parent : OpId) (names : List (String × ℕ)) : Prop :=
  ∀ x i, (x, i) ∈ names → v.replaced (.res (.allocLocal n i) 0) = .res (OpId.allocLocal n i).alloc 0 ∧
    v.allocs (OpId.allocLocal n i).alloc = some (x, parent)

def allocLocalsWork (n : ℕ) (parent : OpId) (names : List (String × ℕ)) : List Work :=
  names.map fun (x, i) ↦
    .op parent (Generator.create (.allocLocal n i) .alloc_local (.str x) [] 1)

theorem addOps_allocLocals (parent : OpId) (n : ℕ) (names : List String) :
    addOps parent (Generator.allocLocals n names) = allocLocalsWork n parent names.zipIdx := by
  rw [Generator.allocLocals, allocLocalsWork]
  induction names.zipIdx with
  | nil => rfl
  | cons name names ih =>
    rw [List.map_cons, addOps_create rfl, ih]
    rfl

theorem LocalsAllocated.extends {names : List (String × ℕ)} {n : ℕ}
    (h : LocalsAllocated v n parent names) (hextends : Extends touched v globals v' globals')
    (hn : n ∉ touched) : LocalsAllocated v' n parent names := by
  intro x i hmem
  obtain ⟨hreplaced, halloc⟩ := h x i hmem
  exact ⟨(hextends.replaced (.allocLocal n i) 0 hn).trans hreplaced, hextends.allocs _ _ halloc⟩

/-- The variables of a local statement hide each other in their order. -/
theorem Inv.allocLocals (uses : List (Value OpId)) (main parent : OpId) (n : ℕ)
    (names : List String) (k : ℕ) (h : Inv v globals (env :: envs) log)
    (hnew : ∀ i, k ≤ i → v.parentOp (.allocLocal n i) = none) :
    let v' := (allocLocalsWork n parent (names.zipIdx k)).foldl (visit uses main) v
    Inv v' globals
        (env.extend ((names.zipIdx k).map fun (x, i) ↦ (x, .localName n i)) :: envs) log ∧
      Extends [n] v globals v' globals ∧ LocalsAllocated v' n parent (names.zipIdx k) ∧
      (∀ op, (∀ i, k ≤ i → op ≠ .allocLocal n i) → v'.parentOp op = v.parentOp op ∧
        v'.allocs op.alloc = v.allocs op.alloc ∧
        v'.replaced (.res op 0) = v.replaced (.res op 0)) := by
  induction names generalizing v env k with
  | nil => exact ⟨h, .refl, fun x i hmem ↦ by simp at hmem, fun _ _ ↦ ⟨rfl, rfl, rfl⟩⟩
  | cons x names ih =>
    have hself : Function.update v.parentOp (.allocLocal n k) (some parent)
        (.allocLocal n k) ≠ none := by simp
    have hfresh := h.allocs_unvisited (hnew k le_rfl)
    have hone := (h.visited (.allocLocal n k) parent).visitAllocLocal hself hfresh parent x
    set w := ({ v with parentOp := Function.update v.parentOp (.allocLocal n k) (some parent) }
      : AllocVisitor).visitAllocLocal parent (.allocLocal n k) x with hw
    have hnew' : ∀ i, k + 1 ≤ i → w.parentOp (.allocLocal n i) = none := by
      intro i hi
      have hne : OpId.allocLocal n i ≠ .allocLocal n k := by
        simp only [OpId.allocLocal, ne_eq, OpId.new.injEq, true_and, and_true]
        omega
      exact (Function.update_of_ne hne _ _).trans (hnew i (by omega))
    obtain ⟨hinv, hextends, hallocated, hframe⟩ := ih (k + 1) hone hnew'
    have hkeep : ∀ i, k + 1 ≤ i → OpId.allocLocal n k ≠ .allocLocal n i := by
      intro i hi
      simp only [OpId.allocLocal, ne_eq, OpId.new.injEq, true_and, and_true]
      omega
    obtain ⟨-, hallock, hreplacedk⟩ := hframe (.allocLocal n k) hkeep
    refine ⟨hinv, ?_, ?_, ?_⟩
    · have hstep : Extends [n] v globals w globals := by
        refine ⟨fun _ _ hc ↦ hc, createAlloc_le hfresh x parent, ?_, ?_⟩
        · intro op i hop
          have hne : Value.res op i ≠ .res (.allocLocal n k) 0 := by
            intro heq
            rw [Value.res.injEq] at heq
            rw [heq.1] at hop
            exact hop (List.mem_singleton_self n)
          exact Function.update_of_ne hne _ _
        · intro op hop
          have hne : op ≠ .allocLocal n k := by
            rintro rfl
            exact hop (List.mem_singleton_self n)
          exact Function.update_of_ne hne _ _
      exact (hstep.trans hextends).mono (by simp)
    · intro y i hmem
      rw [List.zipIdx_cons, List.mem_cons] at hmem
      rcases hmem with heq | hmem
      · rw [Prod.mk.injEq] at heq
        rw [heq.1, heq.2]
        refine ⟨hreplacedk.trans ?_, hallock.trans ?_⟩
        · exact Function.update_self _ _ _
        · exact Function.update_self _ _ _
      · exact hallocated y i hmem
    · intro op hop
      obtain ⟨hp, ha, hr⟩ := hframe op fun i hi ↦ hop i (by omega)
      have hne := hop k le_rfl
      refine ⟨hp.trans ?_, ha.trans ?_, hr.trans ?_⟩
      · exact Function.update_of_ne hne _ _
      · exact Function.update_of_ne (by simpa [OpId.alloc] using hne) _ _
      · exact Function.update_of_ne (by simpa using hne) _ _

/-! ## Assignments -/

/-- A use is redirected to an assignment of the same variable. -/
theorem IsTarget.cell_of_redirects {tgt val : Value OpId} (h : IsTarget globals env v tgt)
    (hinv : Inv v globals envs log) (hredirects : v.redirects uses (v.replaced tgt) val = some x) :
    globals.cell x (env x) = some (v.replaced tgt) := by
  obtain ⟨op, i, parent, htgt, halloc⟩ := redirects_eq_some hredirects
  obtain ⟨op', hop', -⟩ := hinv.allocs op _ halloc
  rcases h with ⟨y, ref, hstands, hvalue, hcell⟩ | ⟨n, hvalue⟩
  · rw [htgt] at hvalue
    cases hstands with
    | arg block j cell => contradiction
    | assign n j cell =>
      rw [Value.res.injEq] at hvalue
      rw [hvalue.1] at hop'
      simp [OpId.assign, OpId.alloc] at hop'
    | alloc op'' parent' halloc' =>
      rw [Value.res.injEq] at hvalue
      rw [hvalue.1, halloc', Option.some.injEq, Prod.mk.injEq] at halloc
      rw [← halloc.1, hcell, htgt, hvalue.1, hvalue.2]
  · rw [htgt, Value.res.injEq] at hvalue
    rw [hvalue.1] at hop'
    simp [OpId.alloc] at hop'

theorem Inv.visitAssign {tgt : Value OpId} (h : Inv v globals (env :: envs) log)
    (htarget : IsTarget globals env v tgt) (n i : ℕ) (val : Value OpId) :
    Inv (v.visitAssign uses (.assign n i) (v.replaced tgt) val) globals (env :: envs) log := by
  unfold AllocVisitor.visitAssign
  split
  · next x hredirects =>
    exact h.setLocal (.assign n i _) (htarget.cell_of_redirects h hredirects) fun _ _ ↦ rfl
  · exact h

def assignsWork (n : ℕ) (parent : OpId) (tgts : List (Value OpId × ℕ)) : List Work :=
  tgts.map fun (tgt, i) ↦
    .op parent (Generator.create (.assign n i) .assign .none [tgt, .res (.unpack n) i] 1)

theorem addOps_handleAssignList (parent : OpId) (n : ℕ) (tgts : List (Value OpId))
    (exps : List Exp) :
    addOps parent (Generator.handleAssignList n tgts exps) =
      .op parent (Generator.makeConcat (.concat n) .concat 1 (Generator.getValsAndTail exps)) ::
      .op parent (Generator.create (.unpack n) .unpack .none [.res (.concat n) 0] tgts.length) ::
      assignsWork n parent tgts.zipIdx := by
  rw [Generator.handleAssignList, Generator.makeConcat, addOps_create rfl, addOps_create rfl,
    assignsWork]
  congr 2
  induction tgts.zipIdx with
  | nil => rfl
  | cons tgt tgts ih =>
    rw [List.map_cons, addOps_create rfl, ih]
    rfl

theorem visit_assign (uses : List (Value OpId)) (main parent : OpId) (v : AllocVisitor) (op : OpId)
    (tgt val : Value OpId) :
    visit uses main v (.op parent (Generator.create op .assign .none [tgt, val] 1)) =
      AllocVisitor.visitAssign uses
        { v with parentOp := Function.update v.parentOp op (some parent) } op
        (v.replaced tgt) (v.replaced val) := rfl

theorem Extends.assign (uses : List (Value OpId)) (main parent : OpId) (v : AllocVisitor)
    (globals : Globals) (n i : ℕ) (tgt val : Value OpId) :
    Extends [n] v globals (visit uses main v
      (.op parent (Generator.create (.assign n i) .assign .none [tgt, val] 1))) globals := by
  have hvisited := Extends.visited v globals (.assign n i) parent
  rw [visit_assign]
  refine ⟨hvisited.globals, ?_, ?_, ?_⟩
  · intro op q hq
    rw [allocs_visitAssign]
    exact hq
  · intro op j _
    rw [replaced_visitAssign]
  · intro op hop
    rw [parentOp_visitAssign]
    exact hvisited.parentOp op hop

theorem Inv.visit_assign (uses : List (Value OpId)) (main parent : OpId) {tgt : Value OpId}
    (h : Inv v globals (env :: envs) log) (htarget : IsTarget globals env v tgt) (n i : ℕ)
    (val : Value OpId) :
    Inv (visit uses main v
      (.op parent (Generator.create (.assign n i) .assign .none [tgt, val] 1))) globals
      (env :: envs) log :=
  (h.visited (.assign n i) parent).visitAssign htarget n i (v.replaced val)

/-- Whether they are redirected or not, assignments of variables keep the scopes. -/
theorem Inv.assigns (uses : List (Value OpId)) (main parent : OpId) {n : ℕ}
    (tgts : List (Value OpId × ℕ)) (h : Inv v globals (env :: envs) log)
    (htargets : ∀ tgt i, (tgt, i) ∈ tgts → IsTarget globals env v tgt) :
    Inv ((assignsWork n parent tgts).foldl (visit uses main) v) globals (env :: envs) log ∧
      Extends [n] v globals ((assignsWork n parent tgts).foldl (visit uses main) v) globals := by
  induction tgts generalizing v with
  | nil => exact ⟨h, .refl⟩
  | cons tgt tgts ih =>
    obtain ⟨tgt, i⟩ := tgt
    have hone := h.visit_assign uses main parent (htargets tgt i List.mem_cons_self) n i
      (.res (.unpack n) i)
    have hstep := Extends.assign uses main parent v globals n i tgt (.res (.unpack n) i)
    have hrest : ∀ tgt' i', (tgt', i') ∈ tgts → IsTarget globals env (visit uses main v
        (.op parent (Generator.create (.assign n i) .assign .none
          [tgt, .res (.unpack n) i] 1))) tgt' := by
      intro tgt' i' hmem
      have htarget := htargets tgt' i' (List.mem_cons_of_mem _ hmem)
      unfold IsTarget at htarget ⊢
      rw [AllocVisitor.visit_assign, allocs_visitAssign, replaced_visitAssign]
      exact htarget
    obtain ⟨hinv, hextends⟩ := ih hone hrest
    exact ⟨hinv, (hstep.trans hextends).mono (by simp)⟩

/-- The assignments of a local statement, each of which is redirected. -/
theorem Inv.localAssigns (uses : List (Value OpId)) (main parent : OpId) {n : ℕ}
    (names : List (String × ℕ)) (h : Inv v globals (env :: envs) log)
    (hlocals : LocalsAllocated v n parent names)
    (hone : ∀ x i, (x, i) ∈ names → (uses.map v.replaced).count (.res (.unpack n) i) = 1)
    (hvals : ∀ i, v.replaced (.res (.unpack n) i) = .res (.unpack n) i)
    (hparent : v.parentOp (.unpack n) = some parent) :
    let work := assignsWork n parent (names.map fun (_, i) ↦ (.res (.allocLocal n i) 0, i))
    Inv (work.foldl (visit uses main) v) globals
        (env.extend (names.map fun (x, i) ↦ (x, .localName n i)) :: envs) log ∧
      Extends [n] v globals (work.foldl (visit uses main) v) globals := by
  induction names generalizing v env with
  | nil => exact ⟨h, .refl⟩
  | cons name names ih =>
    obtain ⟨x, i⟩ := name
    obtain ⟨hreplaced, halloc⟩ := hlocals x i List.mem_cons_self
    have hstep := Extends.assign uses main parent v globals n i (.res (.allocLocal n i) 0)
      (.res (.unpack n) i)
    have hunpack : (OpId.unpack n) ≠ .assign n i := by simp [OpId.unpack, OpId.assign]
    have hparent' :
        Function.update v.parentOp (.assign n i) (some parent) (.unpack n) = some parent := by
      rw [Function.update_of_ne hunpack, hparent]
    have hredirects : AllocVisitor.redirects uses
        { v with parentOp := Function.update v.parentOp (.assign n i) (some parent) }
        (.res (OpId.allocLocal n i).alloc 0) (.res (.unpack n) i) = some x := by
      apply redirects_of_alloc
      · exact halloc
      · exact hone x i List.mem_cons_self
      · exact hparent'
    have hvisit : visit uses main v (.op parent (Generator.create (.assign n i) .assign .none
        [.res (.allocLocal n i) 0, .res (.unpack n) i] 1)) =
        AllocVisitor.setLocal
          { v with parentOp := Function.update v.parentOp (.assign n i) (some parent) } x
          ⟨.res (.assign n i) 0, .res (OpId.allocLocal n i).alloc 0⟩ := by
      rw [AllocVisitor.visit_assign, AllocVisitor.visitAssign, hreplaced, hvals, hredirects]
    have hset : Inv (visit uses main v (.op parent (Generator.create (.assign n i) .assign .none
        [.res (.allocLocal n i) 0, .res (.unpack n) i] 1))) globals
        (Function.update env x (some (.localName n i)) :: envs) log := by
      rw [hvisit]
      apply (h.visited (.assign n i) parent).setLocal (.assign n i _)
      · rw [Function.update_self]
        rfl
      · intro y hy
        exact Function.update_of_ne hy _ _
    have hrest := ih hset ?_ ?_ ?_ ?_
    · exact ⟨hrest.1, (hstep.trans hrest.2).mono (by simp)⟩
    · intro y j hmem
      rw [hvisit]
      exact hlocals y j (List.mem_cons_of_mem _ hmem)
    · intro y j hmem
      rw [hvisit]
      exact hone y j (List.mem_cons_of_mem _ hmem)
    · rw [hvisit]
      exact hvals
    · rw [hvisit]
      exact hparent'

end AllocVisitor

end DeclarativeMlir.Lua
