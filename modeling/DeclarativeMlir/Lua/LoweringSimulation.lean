import DeclarativeMlir.Lua.LoweringNormalForm

/-!
# Lowering preserves the runs of structured code

The state of structured code and the state of the lowered graph match when the graph stands at
the lowering of the remaining code, every enclosing op has its blocks in the graph, and the
values visible to the code are the same under their names in the copy.
-/

namespace DeclarativeMlir.Lua

open LocalExpansion EventMachine

/-! ## Blocks of a graph given by its lines -/

/-- The ops in front of the next label. -/
def headOps : List (Line OpId) → List (Op OpId)
  | .op op :: rest => op :: headOps rest
  | _ => []

theorem headOps_block (ops : List (Op OpId)) (region : Region OpId) :
    headOps (ops.map .op ++ lines region) = ops := by
  induction ops with
  | nil =>
    rcases region with _ | ⟨⟨id, numArgs, ops⟩, region⟩ <;> rfl
  | cons op ops ih => simpa [headOps] using ih

theorem lines_cons (id : BlockId OpId) (numArgs : ℕ) (ops : List (Op OpId))
    (region : Region OpId) :
    lines (.mk id numArgs ops :: region) = .label id numArgs :: (ops.map .op ++ lines region) := by
  simp [lines, Blk.lines]

theorem split_at_label {ops : List (Op OpId)} {rest before after : List (Line OpId)}
    {label : BlockId OpId} {numArgs : ℕ}
    (hsplit : ops.map .op ++ rest = before ++ .label label numArgs :: after) :
    ∃ before', rest = before' ++ .label label numArgs :: after := by
  induction ops generalizing before with
  | nil => exact ⟨before, by simpa using hsplit⟩
  | cons op ops ih =>
    cases before with
    | nil => simp at hsplit
    | cons line before =>
      simp only [List.map_cons, List.cons_append, List.cons.injEq] at hsplit
      exact ih hsplit.2

/-- When labels are unique, a label leads to the ops behind it. -/
theorem blockOps_of_lines {region : Region OpId} (hnodup : (labelsOf (lines region)).Nodup)
    {before after : List (Line OpId)} {label : BlockId OpId} {numArgs : ℕ}
    (hlines : lines region = before ++ .label label numArgs :: after) :
    Cfg.blockOps region label = some (headOps after) := by
  induction region generalizing before with
  | nil => simp [lines] at hlines
  | cons block region ih =>
    obtain ⟨id, n, ops⟩ := block
    rw [lines_cons] at hlines hnodup
    simp only [labelsOf, labelsOf_append, labelsOf_map_op, List.nil_append,
      List.nodup_cons] at hnodup
    cases before with
    | nil =>
      simp only [List.nil_append, List.cons.injEq, Line.label.injEq] at hlines
      obtain ⟨⟨rfl, rfl⟩, rfl⟩ := hlines
      rw [headOps_block]
      simp [Cfg.blockOps, Blk.id, Blk.ops]
    | cons line before =>
      simp only [List.cons_append, List.cons.injEq] at hlines
      obtain ⟨before', hrest⟩ := split_at_label hlines.2
      have hne : id ≠ label := by
        rintro rfl
        refine hnodup.1 ?_
        rw [hrest, labelsOf_append]
        exact List.mem_append_right _ List.mem_cons_self
      have hfound := ih hnodup.2 hrest
      simpa [Cfg.blockOps, Blk.id, hne] using hfound

/-! ## Matching states -/

/-- Visible values have their values under the names of the copy. -/
def EnvMatch {V : Type} (f : ℕ → OpId) (visible : Set (Value ℕ)) (env : Value ℕ → V)
    (env' : Value OpId → V) : Prop :=
  ∀ value ∈ visible, env' (value.map f) = env value

/-- The block `label` of the graph begins with the lowering of `code`. -/
def Placed (region : Region OpId) (label : BlockId OpId) (exit : Exit) (f : ℕ → OpId)
    (code : List (Op ℕ)) : Prop :=
  ∃ before u after, lines region = before ++ .label label 0 :: (u ++ after) ∧
    Normal expandLine ((target exit f code).map .op) u

/-- Code behind an enclosing op, in its own context. -/
structure Continuation (region : Region OpId) (op : OpId) (exit : Exit) (f : ℕ → OpId)
    (visible : Set (Value ℕ)) (rest : List (Op ℕ)) : Prop where
  code : StructuredCode exit.terms visible rest
  renames : Renames f
  placed : Placed region (.new op 2) exit f rest

/-- The enclosing ops of the code and their blocks. -/
inductive FramesMatch (region : Region OpId) :
    Exit → (ℕ → OpId) → Set (Value ℕ) → List Structured.Frame → Prop where
  | function {f visible} : FramesMatch region .function f visible []
  | branch {op k exit f f' visible visible' rest frames}
      (hrest : Continuation region op exit f visible rest)
      (hframes : FramesMatch region exit f visible frames) (hvisible : visible ⊆ visible')
      (hagree : ∀ value ∈ visible, f' value.owner = f value.owner) :
      FramesMatch region (.branch op k) f' visible' (.branch rest :: frames)
  | loop {op inner exit f f' visible visible' id eval body rest frames}
      (hinner : inner = .eval op ∨ inner = .body op)
      (hrest : Continuation region op exit f visible rest)
      (hframes : FramesMatch region exit f visible frames) (hvisible : visible ⊆ visible')
      (hagree : ∀ value ∈ visible, f' value.owner = f value.owner)
      (heval : StructuredCode [.cond] visible eval)
      (hevalPlaced : Placed region (.new op 0) (.eval op) (copyNames f eval) eval)
      (hbody : StructuredCode [.end] visible body)
      (hbodyPlaced : Placed region (.new op 1) (.body op) (copyNames f body) body) :
      FramesMatch region inner f' visible'
        (.loop [.mk (.entry id 0) 0 eval] [.mk (.entry id 1) 0 body] rest :: frames)

inductive Matches {V S : Type} (region : Region OpId) :
    Structured.Config V S → Cfg.Config V S → Prop where
  | running {exit f visible code frames env env' store} (before u after)
      (hcode : StructuredCode exit.terms visible code) (hf : Renames f)
      (hframes : FramesMatch region exit f visible frames)
      (hnormal : Normal expandLine ((target exit f code).map .op) u)
      (hlines : lines region = before ++ (u ++ after)) (henv : EnvMatch f visible env env') :
      Matches region ⟨code, frames, env, store⟩ ⟨headOps (u ++ after), env', store⟩
  | halted {env env' store} : Matches region ⟨[], [], env, store⟩ ⟨[], env', store⟩

section

variable {V S : Type} {region : Region OpId} {f f' : ℕ → OpId} {visible visible' : Set (Value ℕ)}
  {env : Value ℕ → V} {env' : Value OpId → V} {store : S} {exit : Exit}
  {frames : List Structured.Frame}

theorem EnvMatch.restrict (henv : EnvMatch f' visible' env env') (hvisible : visible ⊆ visible')
    (hagree : ∀ value ∈ visible, f' value.owner = f value.owner) :
    EnvMatch f visible env env' := by
  intro value hvalue
  rw [← Value.map_congr (hagree value hvalue)]
  exact henv value (hvisible hvalue)

theorem agree_copyNames (hf : Renames f) {terms : List OpName} {code : List (Op ℕ)}
    (hcode : StructuredCode terms visible code) :
    ∀ value ∈ visible, copyNames f code value.owner = f value.owner :=
  fun value hvalue ↦ copyNames_of_notMem hf (hcode.fresh value hvalue)

theorem EnvMatch.enter (henv : EnvMatch f visible env env') (hf : Renames f)
    {terms : List OpName} {code : List (Op ℕ)} (hcode : StructuredCode terms visible code) :
    EnvMatch (copyNames f code) visible env env' :=
  henv.restrict subset_rfl fun value hvalue ↦ (agree_copyNames hf hcode value hvalue).symm

/-- A result of an op created by the lowering hides no visible value. -/
theorem EnvMatch.setNew (henv : EnvMatch f visible env env') (hf : Renames f) (op : OpId) (k : ℕ)
    (results : ℕ → V) : EnvMatch f visible env (setResults (.new op k) results env') := by
  intro value hvalue
  rw [← henv value hvalue]
  cases value with
  | res n idx =>
    have hne := hf.ne_new n op k
    simp [Value.map, setResults, hne]
  | arg block idx => rfl

/-- Both sides execute the same op. -/
theorem EnvMatch.setResults (henv : EnvMatch f visible env env') (hf : Renames f) {op : Op ℕ}
    (hfresh : ∀ value ∈ visible, value.owner ∉ op.defs) (results : ℕ → V) :
    EnvMatch f ({value | value ∈ op.results} ∪ visible) (Lua.setResults op.id results env)
      (Lua.setResults (f op.id) results env') := by
  intro value hvalue
  rcases hvalue with hresult | hvalue
  · obtain ⟨idx, -, rfl⟩ := List.mem_map.mp hresult
    simp [Value.map, Lua.setResults]
  · have hold := henv value hvalue
    have hne : value.owner ≠ op.id := by
      intro heq
      refine hfresh value hvalue ?_
      rw [heq]
      cases op
      exact List.mem_cons_self
    cases value with
    | res n idx =>
      have hne' : n ≠ op.id := hne
      have hnames : f n ≠ f op.id := hf.injective.ne hne'
      simpa [Value.map, Lua.setResults, hne', hnames] using hold
    | arg block idx => exact hold

theorem EnvMatch.operands (henv : EnvMatch f visible env env') {op : Op ℕ}
    (hoperands : ∀ value ∈ op.operands, value ∈ visible) :
    (op.map f).operands.map env' = op.operands.map env := by
  rw [Op.operands_map, List.map_map]
  exact List.map_congr_left fun value hvalue ↦ henv value (hoperands value hvalue)

theorem FramesMatch.mono (hframes : FramesMatch region exit f visible frames)
    (hvisible : visible ⊆ visible') : FramesMatch region exit f visible' frames := by
  cases hframes with
  | function => exact .function
  | branch hrest hframes hsub hagree =>
    exact .branch hrest hframes (hsub.trans hvisible) hagree
  | loop hinner hrest hframes hsub hagree heval hevalPlaced hbody hbodyPlaced =>
    exact .loop hinner hrest hframes (hsub.trans hvisible) hagree heval hevalPlaced hbody
      hbodyPlaced

theorem Renames.map_origin (hf : Renames f) (op : Op ℕ) : (op.map f).map OpId.origin = op := by
  rw [Op.map_map, hf.origin_comp]
  exact op.map_id

end

/-! ## Complete expansions of the structured ops -/

theorem normal_blocks {label₁ label₂ label₃ : BlockId OpId} {exit₁ exit₂ : Exit}
    {f₁ f₂ : ℕ → OpId} {code₁ code₂ : List (Op ℕ)} {v : List (Line OpId)}
    (hnormal : Normal expandLine (blockLines label₁ exit₁ f₁ code₁ ++
      (blockLines label₂ exit₂ f₂ code₂ ++ [.label label₃ 0])) v) :
    ∃ u₁ u₂, v = .label label₁ 0 :: (u₁ ++ .label label₂ 0 :: (u₂ ++ [.label label₃ 0])) ∧
      Normal expandLine ((target exit₁ f₁ code₁).map .op) u₁ ∧
      Normal expandLine ((target exit₂ f₂ code₂).map .op) u₂ := by
  obtain ⟨v₁, v', rfl, hv₁, hv'⟩ := hnormal.append_cases
  obtain ⟨v₂, v₃, rfl, hv₂, hv₃⟩ := hv'.append_cases
  obtain ⟨u₁, rfl, hu₁⟩ := hv₁.cons_terminal rfl
  obtain ⟨u₂, rfl, hu₂⟩ := hv₂.cons_terminal rfl
  obtain ⟨last, rfl, hlast⟩ := hv₃.cons_terminal rfl
  obtain rfl := hlast.nil
  exact ⟨u₁, u₂, by simp, hu₁, hu₂⟩

theorem normal_condIf {exit : Exit} {f : ℕ → OpId} {id : ℕ} {attr : Attr} {cond : Value ℕ}
    {first second rest : List (Op ℕ)} {visible : Set (Value ℕ)} {u : List (Line OpId)}
    (hfirst : StructuredCode [.end, .ret] visible first)
    (hsecond : StructuredCode [.end, .ret] visible second) (hrest : rest ≠ [])
    (hnormal : Normal expandLine
      ((target exit f (condIfOp id attr cond first second :: rest)).map .op) u) :
    ∃ u₁ u₂ w, u = .op (create (.new (f id) 0) .convert_bool_like [cond.map f] 1) ::
        .op (CondBranchOp (.new (f id) 1) (.res (.new (f id) 0) 0) (.new (f id) 0)
          (.new (f id) 1)) ::
        .label (.new (f id) 0) 0 :: (u₁ ++ .label (.new (f id) 1) 0 ::
          (u₂ ++ .label (.new (f id) 2) 0 :: w)) ∧
      Normal expandLine ((target (.branch (f id) 2) (copyNames f first) first).map .op) u₁ ∧
      Normal expandLine ((target (.branch (f id) 3) (copyNames f second) second).map .op) u₂ ∧
      Normal expandLine ((target exit f rest).map .op) w := by
  rw [target_cons exit f _ hrest, List.map_cons] at hnormal
  obtain ⟨v, w, rfl, hv, hw⟩ :=
    hnormal.cons_expand (expandLine_condIf hfirst hsecond f id attr cond)
  obtain ⟨v', rfl, hv'⟩ := Normal.cons_terminal rfl hv
  obtain ⟨v'', rfl, hv''⟩ := Normal.cons_terminal rfl hv'
  obtain ⟨u₁, u₂, rfl, hu₁, hu₂⟩ := normal_blocks hv''
  exact ⟨u₁, u₂, w, by simp, hu₁, hu₂, hw⟩

theorem normal_loopWhile {exit : Exit} {f : ℕ → OpId} {id : ℕ} {attr : Attr}
    {eval body rest : List (Op ℕ)} {visible : Set (Value ℕ)} {u : List (Line OpId)}
    (heval : StructuredCode [.cond] visible eval) (hbody : StructuredCode [.end] visible body)
    (hrest : rest ≠ [])
    (hnormal : Normal expandLine
      ((target exit f (loopWhileOp id attr eval body :: rest)).map .op) u) :
    ∃ u₁ u₂ w, u = .op (BranchOp (.new (f id) 0) (.new (f id) 0)) ::
        .label (.new (f id) 0) 0 :: (u₁ ++ .label (.new (f id) 1) 0 ::
          (u₂ ++ .label (.new (f id) 2) 0 :: w)) ∧
      Normal expandLine ((target (.eval (f id)) (copyNames f eval) eval).map .op) u₁ ∧
      Normal expandLine ((target (.body (f id)) (copyNames f body) body).map .op) u₂ ∧
      Normal expandLine ((target exit f rest).map .op) w := by
  rw [target_cons exit f _ hrest, List.map_cons] at hnormal
  obtain ⟨v, w, rfl, hv, hw⟩ := hnormal.cons_expand (expandLine_loopWhile heval hbody f id attr)
  obtain ⟨v', rfl, hv'⟩ := Normal.cons_terminal rfl hv
  obtain ⟨u₁, u₂, rfl, hu₁, hu₂⟩ := normal_blocks hv'
  exact ⟨u₁, u₂, w, by simp, hu₁, hu₂, hw⟩

/-- A terminator is replaced as its context asks. -/
theorem normal_term {exit : Exit} {f : ℕ → OpId} {term : Op ℕ} {u : List (Line OpId)}
    (hterm : term.name ∈ exit.terms) (hcond : term.name = .cond → ∃ cond, term.operands = [cond])
    (hnormal : Normal expandLine ((target exit f [term]).map .op) u) :
    u = (exit.terminator (term.map f)).map .op :=
  hnormal.of_terminal (terminal_of_flat (LoweredLines.of_exit_map [] hterm hcond f).flat)

theorem placed_blocks {region : Region OpId} {label₁ label₂ label₃ : BlockId OpId}
    {exit₁ exit₂ exit₃ : Exit} {f₁ f₂ f₃ : ℕ → OpId} {code₁ code₂ code₃ : List (Op ℕ)}
    (before : List (Line OpId)) {u₁ u₂ u₃ : List (Line OpId)} (after : List (Line OpId))
    (hlines : lines region = before ++ .label label₁ 0 ::
      (u₁ ++ .label label₂ 0 :: (u₂ ++ .label label₃ 0 :: (u₃ ++ after))))
    (hu₁ : Normal expandLine ((target exit₁ f₁ code₁).map .op) u₁)
    (hu₂ : Normal expandLine ((target exit₂ f₂ code₂).map .op) u₂)
    (hu₃ : Normal expandLine ((target exit₃ f₃ code₃).map .op) u₃) :
    Placed region label₁ exit₁ f₁ code₁ ∧ Placed region label₂ exit₂ f₂ code₂ ∧
      Placed region label₃ exit₃ f₃ code₃ := by
  refine ⟨⟨before, u₁, _, hlines, hu₁⟩, ⟨before ++ .label label₁ 0 :: u₁, u₂,
    .label label₃ 0 :: (u₃ ++ after), ?_, hu₂⟩, ⟨before ++ .label label₁ 0 :: (u₁ ++ .label label₂ 0 :: u₂), u₃,
    after, ?_, hu₃⟩⟩
  · simpa using hlines
  · simpa using hlines

/-! ## The simulation -/

section

variable {V S : Type} (interp : Interp V S) {region : Region OpId}

/-- A structured step and the steps of the graph that match it. -/
def Advances (region : Region OpId) (config : Structured.Config V S)
    (config' : Cfg.Config V S) : Prop :=
  ∃ events next, Structured.step interp config = some (events, next) ∧
    ∃ first next' n, Cfg.step interp region config' = some (first, next') ∧
      first ++ (run (Cfg.step interp region) n next').1 = events ∧
      Matches region next (run (Cfg.step interp region) n next').2

variable {interp} {config : Structured.Config V S} {config' : Cfg.Config V S}

theorem Advances.one (events : List (Event V)) (next : Structured.Config V S)
    (next' : Cfg.Config V S) (hstep : Structured.step interp config = some (events, next))
    (hstep' : Cfg.step interp region config' = some (events, next'))
    (hmatches : Matches region next next') : Advances interp region config config' :=
  ⟨events, next, hstep, events, next', 0, hstep', by simp, hmatches⟩

theorem Advances.two {next : Structured.Config V S} {next' next'' : Cfg.Config V S}
    {events : List (Event V)} (hstep : Structured.step interp config = some (events, next))
    (hstep' : Cfg.step interp region config' = some (events, next'))
    (hstep'' : Cfg.step interp region next' = some ([], next''))
    (hmatches : Matches region next next'') : Advances interp region config config' := by
  have hrun := run_succ_of_some hstep'' 0
  simp only [run_zero, List.append_nil] at hrun
  exact ⟨events, next, hstep, events, next', 1, hstep', by simp [hrun], by simpa [hrun]⟩

theorem step_branch (id : OpId) (dest : BlockId OpId) (rest : List (Op OpId))
    (env : Value OpId → V) (store : S) :
    Cfg.step interp region ⟨BranchOp id dest :: rest, env, store⟩ =
      Cfg.goto region dest env store := rfl

theorem step_condIf (interp : Interp V S) (id : ℕ) (attr : Attr) (cond : Value ℕ) (first second rest : List (Op ℕ))
    (frames : List Structured.Frame) (env : Value ℕ → V) (store : S) :
    Structured.step interp ⟨condIfOp id attr cond first second :: rest, frames, env, store⟩ =
      some ([.cond (env cond)],
        ⟨if interp.truthy (env cond) then first else second, .branch rest :: frames, env,
          store⟩) := by
  have hblock : (if interp.truthy (env cond) then first else second) =
      getBlock0 (if interp.truthy (env cond) then [.mk (.entry id 0) 0 first]
        else [.mk (.entry id 1) 0 second]) := by
    split <;> rfl
  rw [hblock]
  rfl

theorem step_cond (interp : Interp V S) (id : ℕ) (attr : Attr) (cond : Value ℕ)
    (eval body : Region ℕ) (rest : List (Op ℕ)) (frames : List Structured.Frame)
    (env : Value ℕ → V) (store : S) :
    Structured.step interp
        ⟨[.mk id .cond attr [cond] 0 [] []], .loop eval body rest :: frames, env, store⟩ =
      some ([.cond (env cond)],
        if interp.truthy (env cond) then
          ⟨getBlock0 body, .loop eval body rest :: frames, env, store⟩
        else ⟨rest, frames, env, store⟩) := rfl

theorem step_straight (interp : Interp V S) {op : Op ℕ} (hname : op.name.IsStraight)
    (rest : List (Op ℕ)) (frames : List Structured.Frame) (env : Value ℕ → V) (store : S) :
    Structured.step interp ⟨op :: rest, frames, env, store⟩ =
      some ([.exec op (op.operands.map env)],
        ⟨rest, frames, setResults op.id (interp.exec op (op.operands.map env) store).1 env,
          (interp.exec op (op.operands.map env) store).2⟩) := if_pos hname

theorem step_convert (id : OpId) (cond : Value OpId) (rest : List (Op OpId))
    (env : Value OpId → V) (store : S) :
    Cfg.step interp region ⟨create id .convert_bool_like [cond] 1 :: rest, env, store⟩ =
      some ([.cond (env cond)],
        ⟨rest, setResults id (fun _ ↦ interp.ofBool (interp.truthy (env cond))) env, store⟩) := rfl

theorem step_condBranch (id convert : OpId) (cond : V) (trueDest falseDest : BlockId OpId)
    (rest : List (Op OpId)) (env : Value OpId → V) (store : S) :
    Cfg.step interp region ⟨CondBranchOp id (.res convert 0) trueDest falseDest :: rest,
        setResults convert (fun _ ↦ interp.ofBool (interp.truthy cond)) env, store⟩ =
      Cfg.goto region (if interp.truthy cond then trueDest else falseDest)
        (setResults convert (fun _ ↦ interp.ofBool (interp.truthy cond)) env) store := by
  set env' := setResults convert (fun _ ↦ interp.ofBool (interp.truthy cond)) env with henv
  have hstep : Cfg.step interp region
        ⟨CondBranchOp id (.res convert 0) trueDest falseDest :: rest, env', store⟩ =
      Cfg.goto region (if interp.truthy (env' (.res convert 0)) then trueDest else falseDest)
        env' store := rfl
  have hvalue : env' (.res convert 0) = interp.ofBool (interp.truthy cond) := by
    rw [henv, setResults, if_pos rfl]
  rw [hstep, hvalue, interp.truthy_ofBool]

variable {f : ℕ → OpId} {visible : Set (Value ℕ)} {env : Value ℕ → V} {env' : Value OpId → V}
  {store : S} {exit : Exit} {frames : List Structured.Frame} {code : List (Op ℕ)}

/-- Branching to the block of `code` starts it. -/
theorem Placed.goto {label : BlockId OpId} (hplaced : Placed region label exit f code)
    (hnodup : (labelsOf (lines region)).Nodup) (hcode : StructuredCode exit.terms visible code)
    (hf : Renames f) (hframes : FramesMatch region exit f visible frames)
    (henv : EnvMatch f visible env env') (store : S) :
    ∃ config', Cfg.goto region label env' store = some ([], config') ∧
      Matches region ⟨code, frames, env, store⟩ config' := by
  obtain ⟨before, u, after, hlines, hnormal⟩ := hplaced
  refine ⟨⟨headOps (u ++ after), env', store⟩, ?_, ?_⟩
  · simp [Cfg.goto, blockOps_of_lines hnodup hlines]
  · exact .running (before ++ [.label label 0]) u after hcode hf hframes hnormal
      (by simpa using hlines) henv

theorem Continuation.goto {op : OpId} (hrest : Continuation region op exit f visible code)
    (hnodup : (labelsOf (lines region)).Nodup)
    (hframes : FramesMatch region exit f visible frames) (henv : EnvMatch f visible env env')
    (store : S) :
    ∃ config', Cfg.goto region (.new op 2) env' store = some ([], config') ∧
      Matches region ⟨code, frames, env, store⟩ config' :=
  hrest.placed.goto hnodup hrest.code hrest.renames hframes henv store

variable {u after : List (Line OpId)}

theorem advances_end (hnodup : (labelsOf (lines region)).Nodup)
    (hframes : FramesMatch region exit f visible frames) (henv : EnvMatch f visible env env')
    (id : ℕ) (attr : Attr) (hmem : .end ∈ exit.terms)
    (hnormal : Normal expandLine
      ((target exit f [.mk id .end attr [] 0 [] []]).map .op) u) :
    Advances interp region ⟨[.mk id .end attr [] 0 [] []], frames, env, store⟩
      ⟨headOps (u ++ after), env', store⟩ := by
  obtain rfl := normal_term hmem (by simp) hnormal
  cases hframes with
  | function => simp [Exit.terms] at hmem
  | @branch op k _ _ _ _ _ rest frames hrest hframes hvisible hagree =>
    obtain ⟨next', hgoto, hmatches⟩ :=
      hrest.goto hnodup hframes (henv.restrict hvisible hagree) store
    refine Advances.one [] _ _ rfl ?_ hmatches
    simpa [target, Exit.terminator, headOps, step_branch] using hgoto
  | @loop op _ exit' f₀ _ visible₀ _ id eval body rest frames hinner hrest hframes hvisible hagree
      heval hevalPlaced hbody hbodyPlaced =>
    rcases hinner with rfl | rfl
    · simp [Exit.terms] at hmem
    · have henv₀ := (henv.restrict hvisible hagree).enter hrest.renames heval
      have hframes' : FramesMatch region (.eval op) (copyNames f₀ eval) visible₀
          (.loop [.mk (.entry id 0) 0 eval] [.mk (.entry id 1) 0 body] rest :: frames) :=
        .loop (.inl rfl) hrest hframes subset_rfl (agree_copyNames hrest.renames heval) heval
          hevalPlaced hbody hbodyPlaced
      obtain ⟨next', hgoto, hmatches⟩ :=
        hevalPlaced.goto hnodup heval (hrest.renames.copyNames eval) hframes' henv₀ store
      refine Advances.one [] _ _ rfl ?_ hmatches
      simpa [target, Exit.terminator, headOps, step_branch] using hgoto

theorem advances_ret (hf : Renames f) (henv : EnvMatch f visible env env') (id : ℕ) (attr : Attr)
    (operands : List (Value ℕ)) (hmem : .ret ∈ exit.terms)
    (hoperands : ∀ value ∈ operands, value ∈ visible)
    (hnormal : Normal expandLine
      ((target exit f [.mk id .ret attr operands 0 [] []]).map .op) u) :
    Advances interp region ⟨[.mk id .ret attr operands 0 [] []], frames, env, store⟩
      ⟨headOps (u ++ after), env', store⟩ := by
  set term : Op ℕ := .mk id .ret attr operands 0 [] [] with hterm
  have hname : term.name = .ret := rfl
  have htarget : exit.terminator (term.map f) = [term.map f] := by
    cases exit with
    | function => rfl
    | branch op k => simp [Exit.terminator, hname]
    | eval op => simp [Exit.terms] at hmem
    | body op => simp [Exit.terms] at hmem
  have hvalues : (term.map f).operands.map env' = term.operands.map env :=
    henv.operands hoperands
  have horigin : (term.map f).map OpId.origin = term := hf.map_origin term
  obtain rfl := normal_term hmem (by simp [hname]) hnormal
  refine Advances.one [.ret term (term.operands.map env)] ⟨[], [], env, store⟩ ⟨[], env', store⟩
    rfl ?_ .halted
  rw [htarget, List.map_singleton, List.singleton_append, headOps]
  simp only [Cfg.step, Op.name_map, hname, hvalues, horigin]
  rfl

theorem advances_cond (hnodup : (labelsOf (lines region)).Nodup) (hf : Renames f)
    (hframes : FramesMatch region exit f visible frames) (henv : EnvMatch f visible env env')
    (id : ℕ) (attr : Attr) (cond : Value ℕ) (hmem : .cond ∈ exit.terms) (hcond : cond ∈ visible)
    (hnormal : Normal expandLine
      ((target exit f [.mk id .cond attr [cond] 0 [] []]).map .op) u) :
    Advances interp region ⟨[.mk id .cond attr [cond] 0 [] []], frames, env, store⟩
      ⟨headOps (u ++ after), env', store⟩ := by
  obtain rfl := normal_term hmem (fun _ ↦ ⟨cond, rfl⟩) hnormal
  cases hframes with
  | function => simp [Exit.terms] at hmem
  | branch => simp [Exit.terms] at hmem
  | @loop op _ exit' f₀ _ visible₀ _ id eval body rest frames hinner hrest hframes hvisible hagree
      heval hevalPlaced hbody hbodyPlaced =>
    rcases hinner with rfl | rfl
    swap
    · simp [Exit.terms] at hmem
    set results := fun _ : ℕ ↦ interp.ofBool (interp.truthy (env cond)) with hresults
    have henv' := henv.setNew hf op 1 results
    have henv₀ := henv'.restrict hvisible hagree
    have hvalue : env' (cond.map f) = env cond := henv cond hcond
    have hconvert : Cfg.step interp region ⟨headOps
        ((target (.eval op) f [.mk id .cond attr [cond] 0 [] []]).map .op ++ after), env',
          store⟩ = some ([.cond (env cond)],
        ⟨CondBranchOp (.new op 2) (.res (.new op 1) 0) (.new op 1) (.new op 2) :: headOps after,
          setResults (.new op 1) results env', store⟩) := by
      simp [target, Exit.terminator, headOps, step_convert, hvalue, hresults]
    cases htruthy : interp.truthy (env cond) with
    | true =>
      have hframes' : FramesMatch region (.body op) (copyNames f₀ body) visible₀
          (.loop [.mk (.entry id 0) 0 eval] [.mk (.entry id 1) 0 body] rest :: frames) :=
        .loop (.inr rfl) hrest hframes subset_rfl (agree_copyNames hrest.renames hbody) heval
          hevalPlaced hbody hbodyPlaced
      obtain ⟨next', hgoto, hmatches⟩ := hbodyPlaced.goto hnodup hbody
        (hrest.renames.copyNames body) hframes' (henv₀.enter hrest.renames hbody) store
      refine Advances.two ?_ hconvert ?_ hmatches
      · rw [step_cond, if_pos htruthy]
        rfl
      · rw [step_condBranch, htruthy]
        simpa [hresults, htruthy] using hgoto
    | false =>
      obtain ⟨next', hgoto, hmatches⟩ := hrest.goto hnodup hframes henv₀ store
      refine Advances.two ?_ hconvert ?_ hmatches
      · rw [step_cond, if_neg (by simp [htruthy])]
      · rw [step_condBranch, htruthy]
        simpa [hresults, htruthy] using hgoto

theorem advances_straight {op : Op ℕ} (hf : Renames f)
    (hframes : FramesMatch region exit f visible frames) (henv : EnvMatch f visible env env')
    (hname : op.name.IsStraight) (hoperands : ∀ value ∈ op.operands, value ∈ visible)
    (hfresh : ∀ value ∈ visible, value.owner ∉ op.defs)
    (hrest : StructuredCode exit.terms ({value | value ∈ op.results} ∪ visible) code)
    {before : List (Line OpId)} (hlines : lines region = before ++ (u ++ after))
    (hnormal : Normal expandLine ((target exit f (op :: code)).map .op) u) :
    Advances interp region ⟨op :: code, frames, env, store⟩
      ⟨headOps (u ++ after), env', store⟩ := by
  rw [target_cons exit f op hrest.ne_nil, List.map_cons] at hnormal
  obtain ⟨w, rfl, hw⟩ := hnormal.cons_terminal
    (expandLine_of_not_isControl (by simpa using hname.not_isControl))
  have hvalues := henv.operands hoperands
  have horigin := hf.map_origin op
  set result := interp.exec op (op.operands.map env) store with hresult
  have henv' := henv.setResults hf hfresh result.1
  refine Advances.one [.exec op (op.operands.map env)]
    ⟨code, frames, setResults op.id result.1 env, result.2⟩
    ⟨headOps (w ++ after), setResults (f op.id) result.1 env', result.2⟩ ?_ ?_ ?_
  · exact step_straight interp hname code frames env store
  · simp only [List.cons_append, headOps, Cfg.step, Op.name_map, hname, if_true, hvalues,
      horigin, Op.id_map]
    rfl
  · exact .running (before ++ [.op (op.map f)]) w after hrest hf
      (hframes.mono Set.subset_union_right) hw (by simpa using hlines) henv'

theorem advances_condIf (hnodup : (labelsOf (lines region)).Nodup) (hf : Renames f)
    (hframes : FramesMatch region exit f visible frames) (henv : EnvMatch f visible env env')
    (id : ℕ) (attr : Attr) (cond : Value ℕ) (hcond : cond ∈ visible)
    {first second : List (Op ℕ)} (hfirst : StructuredCode [.end, .ret] visible first)
    (hsecond : StructuredCode [.end, .ret] visible second)
    (hrest : StructuredCode exit.terms visible code)
    {before : List (Line OpId)} (hlines : lines region = before ++ (u ++ after))
    (hnormal : Normal expandLine
      ((target exit f (condIfOp id attr cond first second :: code)).map .op) u) :
    Advances interp region ⟨condIfOp id attr cond first second :: code, frames, env, store⟩
      ⟨headOps (u ++ after), env', store⟩ := by
  obtain ⟨u₁, u₂, w, rfl, hu₁, hu₂, hw⟩ := normal_condIf hfirst hsecond hrest.ne_nil hnormal
  set results := fun _ : ℕ ↦ interp.ofBool (interp.truthy (env cond)) with hresults
  have henv' := henv.setNew hf (f id) 0 results
  have hvalue : env' (cond.map f) = env cond := henv cond hcond
  obtain ⟨hplaced₁, hplaced₂, hplaced₃⟩ := placed_blocks (before ++
    [.op (create (.new (f id) 0) .convert_bool_like [cond.map f] 1),
      .op (CondBranchOp (.new (f id) 1) (.res (.new (f id) 0) 0) (.new (f id) 0)
        (.new (f id) 1))]) after (by simpa using hlines) hu₁ hu₂ hw
  have hcontinuation : Continuation region (f id) exit f visible code := ⟨hrest, hf, hplaced₃⟩
  have hstep := step_condIf interp id attr cond first second code frames env store
  have hconvert : ∀ rest, Cfg.step interp region
      ⟨create (.new (f id) 0) .convert_bool_like [cond.map f] 1 :: rest, env', store⟩ =
        some ([.cond (env cond)], ⟨rest, setResults (.new (f id) 0) results env', store⟩) :=
    fun rest ↦ by rw [step_convert, hvalue]
  simp only [List.cons_append, headOps]
  cases htruthy : interp.truthy (env cond) with
  | true =>
    obtain ⟨next', hgoto, hmatches⟩ := hplaced₁.goto hnodup hfirst (hf.copyNames first)
      (.branch (k := 2) hcontinuation hframes subset_rfl (agree_copyNames hf hfirst))
      (henv'.enter hf hfirst) store
    refine Advances.two (by simpa [htruthy] using hstep) (hconvert _) ?_ hmatches
    rw [hresults, step_condBranch, htruthy]
    simpa [hresults, htruthy] using hgoto
  | false =>
    obtain ⟨next', hgoto, hmatches⟩ := hplaced₂.goto hnodup hsecond (hf.copyNames second)
      (.branch (k := 3) hcontinuation hframes subset_rfl (agree_copyNames hf hsecond))
      (henv'.enter hf hsecond) store
    refine Advances.two (by simpa [htruthy] using hstep) (hconvert _) ?_ hmatches
    rw [hresults, step_condBranch, htruthy]
    simpa [hresults, htruthy] using hgoto

theorem advances_loopWhile (hnodup : (labelsOf (lines region)).Nodup) (hf : Renames f)
    (hframes : FramesMatch region exit f visible frames) (henv : EnvMatch f visible env env')
    (id : ℕ) (attr : Attr) {eval body : List (Op ℕ)}
    (heval : StructuredCode [.cond] visible eval) (hbody : StructuredCode [.end] visible body)
    (hrest : StructuredCode exit.terms visible code)
    {before : List (Line OpId)} (hlines : lines region = before ++ (u ++ after))
    (hnormal : Normal expandLine
      ((target exit f (loopWhileOp id attr eval body :: code)).map .op) u) :
    Advances interp region ⟨loopWhileOp id attr eval body :: code, frames, env, store⟩
      ⟨headOps (u ++ after), env', store⟩ := by
  obtain ⟨u₁, u₂, w, rfl, hu₁, hu₂, hw⟩ := normal_loopWhile heval hbody hrest.ne_nil hnormal
  obtain ⟨hplaced₁, hplaced₂, hplaced₃⟩ := placed_blocks
    (before ++ [.op (BranchOp (.new (f id) 0) (.new (f id) 0))]) after (by simpa using hlines) hu₁ hu₂ hw
  have hframes' : FramesMatch region (.eval (f id)) (copyNames f eval) visible
      (.loop [.mk (.entry id 0) 0 eval] [.mk (.entry id 1) 0 body] code :: frames) :=
    .loop (.inl rfl) ⟨hrest, hf, hplaced₃⟩ hframes subset_rfl (agree_copyNames hf heval) heval
      hplaced₁ hbody hplaced₂
  obtain ⟨next', hgoto, hmatches⟩ := hplaced₁.goto hnodup heval (hf.copyNames eval) hframes'
    (henv.enter hf heval) store
  refine Advances.one [] _ _ rfl ?_ hmatches
  rw [List.cons_append, headOps, step_branch]
  exact hgoto

end

/-- Lowering is a simulation: every structured step is matched by one or two steps of the
graph. -/
theorem lowering_simulation {V S : Type} (interp : Interp V S) {region : Region OpId}
    (hnodup : (labelsOf (lines region)).Nodup) :
    Simulation (Structured.step interp) (Cfg.step interp region) (Matches region) := by
  have hadvances : ∀ {config config'}, Matches region config config' → config.code ≠ [] →
      Advances interp region config config' := by
    intro config config' hmatches hcode
    cases hmatches with
    | halted => contradiction
    | running before u after hcode' hf hframes hnormal hlines henv =>
      cases hcode' with
      | endTerm id attr hmem _ => exact advances_end hnodup hframes henv id attr hmem hnormal
      | retTerm id attr operands hmem hoperands _ =>
        exact advances_ret hf henv id attr operands hmem hoperands hnormal
      | condTerm id attr cond hmem hcond _ =>
        exact advances_cond hnodup hf hframes henv id attr cond hmem hcond hnormal
      | straight hname hoperands hfresh hrest =>
        exact advances_straight hf hframes henv hname hoperands hfresh hrest hlines hnormal
      | condIf id attr cond hcond _ hfirst hsecond hrest =>
        exact advances_condIf hnodup hf hframes henv id attr cond hcond hfirst hsecond hrest
          hlines hnormal
      | loopWhile id attr _ heval hbody hrest =>
        exact advances_loopWhile hnodup hf hframes henv id attr heval hbody hrest hlines hnormal
  constructor
  · intro config config' events next hmatches hstep
    have hcode : config.code ≠ [] := by
      rintro hnil
      obtain ⟨code, frames, env, store⟩ := config
      obtain rfl : code = [] := hnil
      cases hstep
    obtain ⟨events', next', hstep', hgraph⟩ := hadvances hmatches hcode
    obtain ⟨rfl, rfl⟩ : events' = events ∧ next' = next := by
      simpa [hstep'] using hstep
    exact hgraph
  · intro config config' hmatches hhalt
    by_cases hcode : config.code = []
    · cases hmatches with
      | running _ _ _ hcode' => exact absurd hcode hcode'.ne_nil
      | halted => rfl
    · obtain ⟨events, next, hstep, -⟩ := hadvances hmatches hcode
      simp [hhalt] at hstep

end DeclarativeMlir.Lua
